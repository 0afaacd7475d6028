import OmniMesh.Sdk.Outgoing

/-!
# `broadcast_to_peers` (`omnimesh-sdk/src/lib.rs`)

One call next to everything else that the node does. The iterator of the `DashMap` visits the entries in
some order; entries that are inserted during the call may be visited too. The next entry is visited when
the send to the last one has returned, whatever its result.
-/

namespace OmniMesh.Sdk
open OmniMesh.Core OmniMesh.Crypto

/-- `met` are the peers that the iterator has come across, `todo` those it has not visited yet, and
`sends` the sends of this call. `returned` says that the call has returned `Ok(())`. -/
structure Broadcast where
  outgoing : Outgoing
  todo : List PeerId
  met : List PeerId
  sends : List ℕ
  returned : Bool

inductive BroadcastAct
  | visit
  | meet (peer : PeerId)
  | finish
  | outgoing (act : OutgoingAct)

namespace Broadcast

/-- The call begins, with the entries of the map in the order of the iterator. -/
def call (outgoing : Outgoing) (order : List PeerId) : Broadcast := ⟨outgoing, order, order, [], false⟩

def hasReturned (outgoing : Outgoing) (send : ℕ) : Bool :=
  match outgoing.sends[send]? with
  | some ⟨_, _, .returned _⟩ => true
  | _ => false

/-- The send to the entry visited last has returned. -/
def isIdle (self : Broadcast) : Bool := self.sends.getLast?.all (hasReturned self.outgoing)

def step (K : Role → Cipher) (D : UpdateDecoder) (serviceId : String) (payload : Bytes)
    (self : Broadcast) : BroadcastAct → Option Broadcast
  | .visit =>
      if self.isIdle ∧ ¬ self.returned then
        match self.todo with
        | [] => none
        | peer :: todo =>
            match self.outgoing.node.sessions.lookup peer with
            | none => some { self with todo }
            | some conn =>
                some { self with
                  todo
                  outgoing := self.outgoing.addSend conn (.broadcastToPeers serviceId payload)
                  sends := self.sends ++ [self.outgoing.sends.length] }
      else none
  | .meet peer =>
      if peer ∈ self.met ∨ self.returned then none
      else some { self with todo := peer :: self.todo, met := peer :: self.met }
  | .finish => if self.isIdle ∧ self.todo = [] then some { self with returned := true } else none
  | .outgoing act => (self.outgoing.step K D act).map fun outgoing => { self with outgoing }

end Broadcast

end OmniMesh.Sdk

import OmniMesh.Sdk.Session
import OmniMesh.Sdk.SessionLoop

/-!
# Two nodes and their services over one session (`omnimesh-sdk/src/lib.rs`)

The session with what `handle_wire_packet` does to the services of the two nodes. Other tasks of a node use
its services between any two steps of its loop. The routers are left out here, since no service sees them.
-/

namespace OmniMesh.Sdk
open OmniMesh.Core OmniMesh.Crypto

/-- What a packet was sealed from: a sender's call, or the ping that it answers. -/
inductive Sealing
  | sender (call : Sender)
  | pong (plain : Bytes)

namespace Sealing

def contents : Sealing → UInt8 × Bytes
  | .sender call => (call.packetType, call.plainBytes)
  | .pong plain => (PacketType.pong, plain)

/-- What the call sends to a service of the other node. -/
def message : Sealing → Option ServicePayload
  | .sender (.sendToPeer serviceId payload) => some ⟨serviceId, payload⟩
  | .sender (.broadcastToPeers serviceId payload) => some ⟨serviceId, payload⟩
  | _ => none

end Sealing

namespace Effect

def message : Effect → Option ServicePayload
  | .dispatch serviceId payload => some ⟨serviceId, payload⟩
  | _ => none

def sealing : Effect → Option Sealing
  | .pong plaintext => some (.pong plaintext)
  | _ => none

end Effect

/-- What a step of a sender seals. -/
def End.seals (K : Role → Cipher) (e : End) : EndAct → List Sealing
  | .encrypt _ sender =>
      match (e.transport.encrypt K sender.plainBytes).1 with
      | .ok _ => [.sender sender]
      | .error _ => []
  | _ => []

/-- `sealed` and `handled` are histories: what each node has sealed, in the order of the nonces, and the
messages that the handlers of its services were called with. -/
structure Peers (σ : Type) where
  session : Session
  services : Role → σ
  sealed : Role → List Sealing
  handled : Role → List ServicePayload

/-- `own` is a step of the senders or of the loop outside `handle_wire_packet`. -/
inductive PeersAct (β : Type)
  | own (role : Role) (act : EndAct)
  | handle (role : Role) (nowMs : UInt64)
  | recv (role : Role)
  | use (role : Role) (act : β)

/-- What the users of a node do to its services, and what its sessions with other peers bring them. -/
def PeersAct.usedAt {β : Type} (r : Role) : PeersAct β → Option β
  | .use r' act => if r' = r then some act else none
  | _ => none

def EndAct.isHandle : EndAct → Bool
  | .handle _ => true
  | _ => false

section
variable {σ β : Type} (K : Role → Cipher) (D : UpdateDecoder) (S : Services σ) (peer : Role → PeerId)
  (use : σ → β → Option σ)

/-- What the handlers do to the services of a node with messages of the peer. -/
def Services.deliver (sender : PeerId) (services : σ) (message : ServicePayload) : σ :=
  (S.handleMessage message.serviceId sender message.payload services).2

namespace Peers

def init (remoteStatic : Role → Option Key) (services : Role → σ) : Peers σ :=
  ⟨.init remoteStatic, services, fun _ => [], fun _ => []⟩

/-- The messages that a node has sent, as far as they could be sealed. -/
def sent (s : Peers σ) (r : Role) : List ServicePayload := (s.sealed r).filterMap Sealing.message

/-- What `handle_wire_packet` finds at this end. -/
def env (s : Peers σ) (r : Role) (nowMs : UInt64) : Env := S.env (peer r.other) (s.services r) nowMs

def step (s : Peers σ) : PeersAct β → Option (Peers σ)
  | .own r act =>
      if act.isHandle then none
      else
        (s.session.step K D (.own r act)).map fun session => { s with
          session
          sealed := Function.update s.sealed r (s.sealed r ++ (s.session r).seals K act) }
  | .handle r nowMs =>
      match (s.session r).loop with
      | .handling packetType decrypted =>
          let env := s.env S peer r nowMs
          let effects := (finishPacket K D env (s.session r).transport packetType decrypted).2.2
          (s.session.step K D (.own r (.handle env))).map fun session => {
            session
            services := Function.update s.services r
              ((effects.filterMap Effect.message).foldl (S.deliver (peer r.other)) (s.services r))
            sealed := Function.update s.sealed r (s.sealed r ++ effects.filterMap Effect.sealing)
            handled := Function.update s.handled r (s.handled r ++ effects.filterMap Effect.message) }
      | _ => none
  | .recv r => (s.session.step K D (.recv r)).map fun session => { s with session }
  | .use r act =>
      (use (s.services r) act).map fun services =>
        { s with services := Function.update s.services r services }

def InTurn (s : Peers σ) : PeersAct β → Prop
  | .own r act => (s.session r).InTurn act
  | .handle r nowMs => (s.session r).InTurn (.handle (s.env S peer r nowMs))
  | _ => True

/-- Nothing that the node has sealed is still on its way to the handlers of the other one. -/
structure Settled (s : Peers σ) (r : Role) : Prop where
  held : (s.session r).held = ∅
  dropped : (s.session r).dropped = []
  queue : (s.session r).queue = []
  sending : ∀ packet, (s.session r).loop ≠ .sending packet
  wire : (s.session r).wire = []
  handling : ∀ packetType decrypted, (s.session r.other).loop ≠ .handling packetType decrypted

end Peers

end

end OmniMesh.Sdk

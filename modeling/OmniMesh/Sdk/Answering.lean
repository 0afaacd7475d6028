import OmniMesh.Sdk.Outgoing
import OmniMesh.Service.Network

/-!
# A node that answers requests (`RpcService` over the sessions of a node)

The session loops hand the messages for the service `rpc` over to it. For every request it spawns a task,
which runs the handler and gives the response to `send_to_peer`; what `send_to_peer` returns is dropped.
-/

namespace OmniMesh.Sdk
open OmniMesh.Core OmniMesh.Crypto OmniMesh.Service

/-- A message for the service, with the session that brought it. -/
structure Received where
  conn : ℕ
  sender : PeerId
  payload : Bytes

/-- `answers` are the sends of the tasks that have called `send_to_peer`. -/
structure Answering where
  service : RpcService
  outgoing : Outgoing
  received : List Received
  answers : Map ℕ ℕ

inductive AnsweringAct
  | call (act : RpcAct)
  | deliver (conn : ℕ) (payload : Bytes)
  | finish (task : ℕ) (outcome : Result Bytes)
  | answer (task : ℕ)
  | outgoing (act : OutgoingAct)

/-- The task's call of `send_to_peer`. -/
def answerSender (invocation : RpcInvocation) (outcome : Result Bytes) : Sender :=
  .sendToPeer "rpc" (RpcMessage.codec.serialize (invocation.response outcome))

namespace Answering

def init (transports : ℕ → NoiseTransport) : Answering := ⟨.new, .init transports, [], ∅⟩

def step (K : Role → Cipher) (D : UpdateDecoder) (self : Answering) : AnsweringAct → Option Answering
  | .call act =>
      if act.isOwn then (self.service.step act).map fun service => { self with service } else none
  | .deliver conn payload =>
      match self.outgoing.node.stages.lookup conn with
      | some (.running peer _) =>
          some { self with
            service := (self.service.handleMessage self.received.length peer payload).2
            received := self.received ++ [⟨conn, peer, payload⟩] }
      | _ => none
  | .finish task outcome =>
      (self.service.step (.finish task outcome)).map fun service => { self with service }
  | .answer task =>
      match self.service.tasks[task]?, self.answers.lookup task with
      | some ⟨invocation, some outcome⟩, none =>
          (self.outgoing.step K D (.send invocation.sender (answerSender invocation outcome))).map
            fun outgoing => { self with
              outgoing, answers := self.answers.insert task self.outgoing.sends.length }
      | _, _ => none
  | .outgoing act => (self.outgoing.step K D act).map fun outgoing => { self with outgoing }

/-- What a task has put on a session. -/
def putBy (self : Answering) (task conn : ℕ) : List (UInt8 × Bytes) :=
  match self.answers.lookup task with
  | none => []
  | some send => (self.outgoing.outboxes conn).putBy send

end Answering

/-- The session is the one in the map, its loop runs, and its nonces are not used up. -/
structure Outgoing.Serves (s : Outgoing) (peer : PeerId) (conn : ℕ) : Prop where
  session : s.node.sessions.lookup peer = some conn
  running : ∃ signal, s.node.stages.lookup conn = some (.running peer signal)
  nonces : (s.outboxes conn).transport.sendNonce < maxNonce

end OmniMesh.Sdk

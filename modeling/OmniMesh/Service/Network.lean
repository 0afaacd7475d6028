import Mathlib.Logic.Function.Basic
import OmniMesh.Service.Rpc

/-!
# Nodes that call each other

Every node runs the service. A message that was handed over once may be delivered at any later time, any
number of times or never. Messages carry what sent them, so that an answer can be traced back.
-/

namespace OmniMesh.Service
open OmniMesh.Core

/-- The call or the handler task, by its number at the sending node. -/
inductive Origin
  | call (call : ℕ)
  | task (task : ℕ)

structure Envelope where
  sender : PeerId
  receiver : PeerId
  payload : Bytes
  origin : Origin

structure RpcNetwork where
  nodes : PeerId → RpcService
  sent : List Envelope

/-- The steps that calls take by themselves. -/
def RpcAct.isOwn : RpcAct → Bool
  | .reserve .. | .register _ | .sent .. | .received _ | .drop _ => true
  | .deliver .. | .finish .. => false

inductive NetworkAct
  | own (node : PeerId) (act : RpcAct)
  | transmit (node : PeerId) (call : ℕ)
  | deliver (message : ℕ)
  | finish (node : PeerId) (task : ℕ) (outcome : Result Bytes)

namespace RpcNetwork

def new : RpcNetwork := ⟨fun _ => .new, []⟩

def step (s : RpcNetwork) : NetworkAct → Option RpcNetwork
  | .own node act =>
      if act.isOwn then
        ((s.nodes node).step act).map fun service =>
          { s with nodes := Function.update s.nodes node service }
      else none
  | .transmit node call =>
      match (s.nodes node).calls[call]? with
      | some ⟨request, _, .sending⟩ =>
          let payload := RpcMessage.codec.serialize request.message
          some { s with sent := s.sent ++ [⟨node, request.target, payload, .call call⟩] }
      | _ => none
  | .deliver message =>
      match s.sent[message]? with
      | some e =>
          let service := ((s.nodes e.receiver).handleMessage message e.sender e.payload).2
          some { s with nodes := Function.update s.nodes e.receiver service }
      | none => none
  | .finish node task outcome =>
      match (s.nodes node).tasks[task]?, (s.nodes node).step (.finish task outcome) with
      | some ⟨invocation, _⟩, some service =>
          let payload := RpcMessage.codec.serialize (invocation.response outcome)
          some ⟨Function.update s.nodes node service,
            s.sent ++ [⟨node, invocation.sender, payload, .task task⟩]⟩
      | _, _ => none

end RpcNetwork

end OmniMesh.Service

import OmniMesh.Sdk.Hub

/-!
# Calls between two nodes (`omnimesh-service/src/lib.rs`, `omnimesh-node/src/main.rs`)

The messages for `rpc` on a session are those of the service: the request of a call, or the response of a
handler task. No other session brings any. Messages for other services are free.
-/

namespace OmniMesh.Sdk
open OmniMesh.Core OmniMesh.Crypto OmniMesh.Service

/-- What `handle_request` may return for a method and a request of a peer. -/
abbrev RpcHandler := PeerId → String → Bytes → Result Bytes → Prop

/-- The service has a call to the peer with this request, or a task that answers the peer with this
response. -/
inductive RpcMade (self : RpcService) (target : PeerId) : Bytes → Prop
  | call {i : ℕ} {c : RpcCall} : self.calls[i]? = some c → c.request.target = target →
      RpcMade self target (RpcMessage.codec.serialize c.request.message)
  | task {k : ℕ} {τ : RpcTask} {outcome : Result Bytes} : self.tasks[k]? = some τ →
      τ.outcome = some outcome → τ.invocation.sender = target →
      RpcMade self target (RpcMessage.codec.serialize (τ.invocation.response outcome))

/-- The steps of nodes on which only the services send for `rpc`, and whose tasks run the handlers. -/
def Peers.Runs (handler : Role → RpcHandler) (peer : Role → PeerId) (s : Peers Hub) : PeersAct HubAct → Prop
  | .own r (.encrypt _ (.sendToPeer serviceId payload)) =>
      serviceId = "rpc" → RpcMade (s.services r).rpc (peer r.other) payload
  | .own _ (.encrypt _ (.broadcastToPeers serviceId _)) => serviceId ≠ "rpc"
  | .use _ (.rpc (.deliver ..)) => False
  | .use r (.rpc (.finish task outcome)) => ∀ τ, (s.services r).rpc.tasks[task]? = some τ →
      handler r τ.invocation.sender τ.invocation.method τ.invocation.payload outcome
  | _ => True

end OmniMesh.Sdk

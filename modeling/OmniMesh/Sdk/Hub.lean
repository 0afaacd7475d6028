import OmniMesh.Sdk.Delivery
import OmniMesh.Service.Chat
import OmniMesh.Service.PubSub
import OmniMesh.Service.Rpc

/-!
# The services that a node registers (`omnimesh-node/src/main.rs`)

They are there from the start: a session that is older than a registration is left out.
-/

namespace OmniMesh.Sdk
open OmniMesh.Core OmniMesh.Service

/-- `received` counts the messages for the calls, which number them. -/
structure Hub where
  chat : Chat
  rpc : RpcService
  pubsub : PubSubService
  received : ℕ

inductive HubAct
  | chat (act : ChatAct)
  | rpc (act : RpcAct)
  | pubsub (act : PubSubAct)

namespace Hub

def new : Hub := ⟨.new, .new, .new, 0⟩

/-- What else happens to the services: what their users do, and what sessions with other peers bring. -/
def use (self : Hub) : HubAct → Option Hub
  | .chat act => (self.chat.step act).map fun chat => { self with chat }
  | .rpc act => (self.rpc.step act).map fun rpc => { self with rpc }
  | .pubsub act => (self.pubsub.step act).map fun pubsub => { self with pubsub }

def services : Services Hub where
  registered _ serviceId := decide (serviceId ∈ ["chat", "rpc", "pubsub"])
  handleMessage serviceId sender payload hub :=
    if serviceId = "chat" then
      let (result, service) := hub.chat.service.handleMessage sender payload
      (result, { hub with chat := { hub.chat with service } })
    else if serviceId = "rpc" then
      let (result, rpc) := hub.rpc.handleMessage hub.received sender payload
      (result, { hub with rpc, received := hub.received + 1 })
    else if serviceId = "pubsub" then
      let (result, pubsub) := hub.pubsub.handleMessage payload
      (result, { hub with pubsub })
    else (.ok (), hub)

end Hub

end OmniMesh.Sdk

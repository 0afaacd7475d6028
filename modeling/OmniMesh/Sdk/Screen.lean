import OmniMesh.Sdk.Delivery
import OmniMesh.Service.Chat

/-!
# The screen of a running node (`omnimesh-node/src/main.rs`)

Of the services that `cmd_run` registers only chat shows on the screen. What the handlers of the others
return does not. As in the hub, the services are there from the start, and sessions with other peers bring
messages as well.
-/

namespace OmniMesh.Service.Printer
open OmniMesh.Sdk

def services : Services Printer where
  registered _ serviceId := decide (serviceId ∈ ["chat", "rpc", "pubsub"])
  handleMessage serviceId sender payload self :=
    if serviceId = "chat" then
      let (result, service) := self.service.handleMessage sender payload
      (result, { self with service })
    else (.ok (), self)

end OmniMesh.Service.Printer

namespace OmniMesh.Sdk
open OmniMesh.Service

/-- The text that a message says to those who chat. -/
def ServicePayload.said (message : ServicePayload) : Option String :=
  if message.serviceId = "chat" then
    match ChatMessage.codec.deserialize message.payload with
    | .ok msg => some msg.text
    | .error _ => none
  else none

end OmniMesh.Sdk

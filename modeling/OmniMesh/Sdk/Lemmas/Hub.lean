import OmniMesh.Sdk.Hub
import OmniMesh.Sdk.Lemmas.Delivery
import OmniMesh.Service.Lemmas.PubSub

/-!
# Publish and subscribe between two nodes
-/

namespace OmniMesh.Sdk
open OmniMesh.Core OmniMesh.Crypto OmniMesh.Service

variable {topic : String} {sender : PeerId}

/-! ## One service of the node -/

namespace Hub

variable {hub hub' : Hub} {trace : List (HubAct ⊕ ServicePayload)}

end Hub

/-! ## From the publisher to the subscriber -/

namespace Peers

variable {K : Role → Cipher} {D : UpdateDecoder} {peer : Role → PeerId} {r : Role} {s t : Peers Hub}
  {acts after : List (PeersAct HubAct)} {remoteStatic : Role → Option Key}

end Peers

end OmniMesh.Sdk

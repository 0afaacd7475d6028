import OmniMesh.Sdk.Lemmas.Delivery
import OmniMesh.Sdk.Screen
import OmniMesh.Service.Lemmas.Chat

/-!
# From what is said to the screen of the other node
-/

namespace OmniMesh.Sdk
open OmniMesh.Core OmniMesh.Crypto OmniMesh.Service

namespace Screen

variable {sender : PeerId} {p p' : Printer} {trace : List (PrinterAct ⊕ ServicePayload)}

/-- What a step says to those who chat. -/
def heard (sender : PeerId) : PrinterAct ⊕ ServicePayload → Option (PeerId × String)
  | .inl act => act.message
  | .inr message => message.said.map (sender, ·)

end Screen

/-! ## The screen of a node that has a session -/

variable {K : Role → Cipher} {D : UpdateDecoder} {peer : Role → PeerId} {r : Role} {s t : Peers Printer}
  {remoteStatic : Role → Option Key} {before after : List (PeersAct PrinterAct)}

end OmniMesh.Sdk

import OmniMesh.Sdk.Lemmas.Concrete
import OmniMesh.Sdk.Lemmas.Screen

/-!
# The screen of the other node
-/

namespace OmniMesh.Sdk
open OmniMesh.Core OmniMesh.Crypto OmniMesh.Service

def hello : ServicePayload := ⟨"chat", ChatService.formatMessage "hello"⟩

end OmniMesh.Sdk

import OmniMesh.Sdk.Lemmas.Calls
import OmniMesh.Sdk.Lemmas.Concrete

/-!
# Remote calls between two nodes
-/

namespace OmniMesh.Sdk
open OmniMesh.Core OmniMesh.Crypto OmniMesh.Service

end OmniMesh.Sdk

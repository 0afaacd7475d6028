import OmniMesh.Core.Lemmas.Concrete
import OmniMesh.Crypto.Lemmas.Concrete
import OmniMesh.Sdk.Lemmas.Handshake
import OmniMesh.Sdk.Lemmas.OverQuic
import OmniMesh.Transport.Lemmas.Duplex

/-!
# Sessions do not cross their streams
-/

namespace OmniMesh.Sdk
open OmniMesh.Core OmniMesh.Crypto OmniMesh.Transport

end OmniMesh.Sdk

import OmniMesh.Core.Types

/-!
# Texts of peer ids (`omnimesh-core/src/types.rs`)
-/

namespace OmniMesh.Core.PeerId

/-- The first eight hexadecimal digits. -/
def short (self : PeerId) : String := String.ofList (self.toHex.toList.take 8)

end OmniMesh.Core.PeerId

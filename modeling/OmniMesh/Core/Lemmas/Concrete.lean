import OmniMesh.Core.PeerId

/-!
# Concrete keys and peers

They are there to run the model: nothing general is proved from them.
-/

namespace OmniMesh.Core

def sampleKey (b : UInt8) : Key := Vector.replicate 32 b

def samplePeer (b : UInt8) : PeerId := ⟨sampleKey b⟩

end OmniMesh.Core

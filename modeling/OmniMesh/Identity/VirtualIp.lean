import OmniMesh.Core.Addr

/-!
# Virtual addresses (`omnimesh-identity/src/virtual_ip.rs`)
-/

namespace OmniMesh.Identity
open OmniMesh.Core

structure VirtualIp where
  addr : Ipv6Addr
  deriving DecidableEq

namespace VirtualIp

/-- `ULA_PREFIX`. -/
def ula : List UInt8 := [0xfd, 0x4f, 0x4d, 0x00]

def fromPeerId (peerId : PeerId) : VirtualIp :=
  ⟨⟨(ula ++ peerId.bytes.toList.take 12).toArray, by simp [ula]⟩⟩

def toText (self : VirtualIp) : String := String.ofList self.addr.display

end VirtualIp

end OmniMesh.Identity

import Mathlib.Data.List.AList
import OmniMesh.Core.Error

/-!
# Common types (`omnimesh-core/src/types.rs`)
-/

namespace OmniMesh.Core

abbrev Bytes := List UInt8

abbrev Key := Vector UInt8 32

/-- `HashMap` and `DashMap`: the entries in some order, with no key twice. -/
abbrev Map (κ ν : Type) := AList fun _ : κ => ν

/-- `DashMap::retain`: `f` changes or drops each value. -/
def Map.retain {κ ν : Type} (f : κ → ν → Option ν) (m : Map κ ν) : Map κ ν where
  entries := m.entries.filterMap fun e => (f e.1 e.2).map (Sigma.mk e.1)
  nodupKeys := by
    refine List.nodupKeys_iff_pairwise.mpr ((List.nodupKeys_iff_pairwise.mp m.nodupKeys).filterMap _ ?_)
    intro e e' hne b hb b' hb'
    obtain ⟨v, -, rfl⟩ := Option.map_eq_some_iff.mp hb
    obtain ⟨v', -, rfl⟩ := Option.map_eq_some_iff.mp hb'
    exact hne

theorem Map.lookup_retain {κ ν : Type} [DecidableEq κ] {f : κ → ν → Option ν} {m : Map κ ν} {k : κ} :
    (m.retain f).lookup k = (m.lookup k).bind (f k) := by
  ext v
  rw [← Option.mem_def, AList.mem_lookup_iff, Option.bind_eq_some_iff]
  simp only [retain, List.mem_filterMap, Option.map_eq_some_iff]
  constructor
  · rintro ⟨⟨k', v'⟩, hmem, v'', hf, heq⟩
    cases heq
    exact ⟨v', AList.mem_lookup_iff.mpr hmem, hf⟩
  · rintro ⟨v', hl, hf⟩
    exact ⟨⟨k, v'⟩, AList.mem_lookup_iff.mp hl, v, hf, rfl⟩

structure PeerId where
  bytes : Key
  deriving DecidableEq, Repr

def PeerId.fromBytes (bytes : Key) : PeerId := ⟨bytes⟩

/-- The `Display` text: two lower-case hexadecimal digits for each byte. -/
def PeerId.toHex (self : PeerId) : String :=
  String.ofList (self.bytes.toList.flatMap fun b =>
    [Nat.digitChar (b.toNat / 16), Nat.digitChar (b.toNat % 16)])

structure ProtocolVersion where
  major : UInt16
  minor : UInt16
  patch : UInt16
  deriving DecidableEq, Repr

namespace ProtocolVersion

def current : ProtocolVersion := ⟨0, 1, 0⟩

def isCompatibleWith (self other : ProtocolVersion) : Bool := self.major == other.major

def toString (v : ProtocolVersion) : String :=
  s!"{v.major.toNat}.{v.minor.toNat}.{v.patch.toNat}"

end ProtocolVersion

/-- `std::net::SocketAddr`. -/
inductive SocketAddr
  | v4 (ip : Vector UInt8 4) (port : UInt16)
  | v6 (ip : Vector UInt8 16) (port : UInt16) (flowinfo scopeId : UInt32)
  deriving DecidableEq, Repr

/-- `std::net::IpAddr`. -/
inductive IpAddr
  | v4 (ip : Vector UInt8 4)
  | v6 (ip : Vector UInt8 16)
  deriving DecidableEq, Repr

namespace SocketAddr

def new : IpAddr → UInt16 → SocketAddr
  | .v4 ip, port => .v4 ip port
  | .v6 ip, port => .v6 ip port 0 0

def ip : SocketAddr → IpAddr
  | .v4 ip _ => .v4 ip
  | .v6 ip _ _ _ => .v6 ip

def port : SocketAddr → UInt16
  | .v4 _ port => port
  | .v6 _ port _ _ => port

end SocketAddr

inductive ConnectionState
  | disconnected
  | connecting
  | connected
  | disconnecting
  deriving DecidableEq, Repr

end OmniMesh.Core

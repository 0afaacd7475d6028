import OmniMesh.Core.Types

/-!
# Addresses as text (`std::net`)

The `Display` of the address types, which error texts and the command line show. An IPv6 address leaves
out the first of its longest runs of zero segments.
-/

namespace OmniMesh.Core

abbrev Ipv4Addr := Vector UInt8 4

abbrev Ipv6Addr := Vector UInt8 16

def decimal (n : ℕ) : List Char := Nat.toDigits 10 n

def lowerHex (n : ℕ) : List Char := Nat.toDigits 16 n

/-- The parts with a separator between them. -/
def separated (separator : Char) : List (List Char) → List Char
  | [] => []
  | [part] => part
  | part :: parts => part ++ separator :: separated separator parts

def Ipv4Addr.display (self : Ipv4Addr) : List Char :=
  separated '.' (self.toList.map fun octet => decimal octet.toNat)

/-- A run of segments. -/
structure Span where
  start : ℕ
  len : ℕ
  deriving DecidableEq, Repr

namespace Ipv6Addr

/-- The eight segments, each of two octets. -/
def segments (self : Ipv6Addr) : List ℕ :=
  List.ofFn fun i : Fin 8 =>
    256 * (self.get ⟨2 * i, by omega⟩).toNat + (self.get ⟨2 * i + 1, by omega⟩).toNat

/-- The loop that finds the longest run of zeros; `i` is the number of the next segment. -/
def longestZeros (i : ℕ) (longest current : Span) : List ℕ → Span
  | [] => longest
  | segment :: rest =>
      if segment = 0 then
        let current : Span := ⟨if current.len = 0 then i else current.start, current.len + 1⟩
        longestZeros (i + 1) (if current.len > longest.len then current else longest) current rest
      else longestZeros (i + 1) longest ⟨0, 0⟩ rest

def zeros (segments : List ℕ) : Span := longestZeros 0 ⟨0, 0⟩ ⟨0, 0⟩ segments

def displaySegments (segments : List ℕ) : List Char := separated ':' (segments.map lowerHex)

/-- The IPv4 address in an IPv4-mapped one. -/
def toIpv4Mapped (self : Ipv6Addr) : Option Ipv4Addr :=
  if self.toList.take 12 = [0, 0, 0, 0, 0, 0, 0, 0, 0, 0, 0xff, 0xff] then
    some (Vector.ofFn fun i : Fin 4 => self.get ⟨12 + i, by omega⟩)
  else none

def display (self : Ipv6Addr) : List Char :=
  match self.toIpv4Mapped with
  | some ipv4 => "::ffff:".toList ++ ipv4.display
  | none =>
      let segments := self.segments
      let zeros := zeros segments
      if zeros.len > 1 then
        displaySegments (segments.take zeros.start) ++ ':' :: ':' ::
          displaySegments (segments.drop (zeros.start + zeros.len))
      else displaySegments segments

end Ipv6Addr

def SocketAddr.display : SocketAddr → List Char
  | .v4 ip port => Ipv4Addr.display ip ++ ':' :: decimal port.toNat
  | .v6 ip port _ scopeId =>
      let scope := if scopeId = 0 then [] else '%' :: decimal scopeId.toNat
      '[' :: Ipv6Addr.display ip ++ scope ++ ']' :: ':' :: decimal port.toNat

def SocketAddr.toText (self : SocketAddr) : String := String.ofList self.display

example : (SocketAddr.v6 #v[0xfd, 0x4f, 0x4d, 0, 0, 0, 0, 0, 0, 0, 0, 1, 0, 0, 0, 0] 80 0 3).toText =
    "[fd4f:4d00::1:0:0%3]:80" := by decide

end OmniMesh.Core

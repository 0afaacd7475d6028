import OmniMesh.Core.Types

/-!
# Key derivation (`omnimesh-crypto/src/kdf.rs`)

HKDF-SHA256 is the `hkdf` crate and stays a parameter.
-/

namespace OmniMesh.Crypto
open OmniMesh.Core

/-- HKDF-SHA256. `expand ikm salt info n` fills a buffer of `n` bytes; it fails for no length up to
255 hash outputs. -/
structure Hkdf where
  expand : Bytes → Option Bytes → Bytes → (n : Nat) → Except String (Vector UInt8 n)
  expand_ok : ∀ ikm salt info n, n ≤ 255 * 32 → ∃ out, expand ikm salt info n = .ok out

namespace Domain

def transport : Bytes := "omnimesh-transport-v1".toUTF8.toList

def sessionRatchet : Bytes := "omnimesh-session-ratchet-v1".toUTF8.toList

end Domain

def deriveKey (H : Hkdf) (ikm : Bytes) (salt : Option Bytes) (info : Bytes) (outputLen : Nat) :
    Result (Vector UInt8 outputLen) :=
  if outputLen = 0 then .error (.keyDerivation "output length must be > 0")
  else if outputLen > 255 * 32 then
    .error (.keyDerivation s!"output length {outputLen} exceeds HKDF-SHA256 maximum (8160)")
  else match H.expand ikm salt info outputLen with
    | .error e => .error (.keyDerivation s!"HKDF expand failed: {e}")
    | .ok output => .ok output

def deriveKey256 (H : Hkdf) (ikm : Bytes) (salt : Option Bytes) (info : Bytes) : Result Key :=
  deriveKey H ikm salt info 32

def deriveKeyPair (H : Hkdf) (ikm : Bytes) (salt : Option Bytes) (info : Bytes) :
    Result (Key × Key) :=
  match deriveKey H ikm salt info 64 with
  | .error e => .error e
  | .ok derived =>
      .ok (Vector.ofFn fun i : Fin 32 => derived.get ⟨i, by omega⟩,
        Vector.ofFn fun i : Fin 32 => derived.get ⟨32 + i, by omega⟩)

def ratchetKey (H : Hkdf) (currentKey : Key) : Result Key :=
  deriveKey256 H currentKey.toList none Domain.sessionRatchet

theorem deriveKey_ok (H : Hkdf) (ikm : Bytes) (salt : Option Bytes) (info : Bytes) {n : Nat}
    (h0 : 0 < n) (hn : n ≤ 255 * 32) : ∃ out, deriveKey H ikm salt info n = .ok out := by
  obtain ⟨out, hout⟩ := H.expand_ok ikm salt info n hn
  exact ⟨out, by simp [deriveKey, Nat.pos_iff_ne_zero.mp h0, Nat.not_lt.mpr hn, hout]⟩

theorem ratchetKey_ok (H : Hkdf) (k : Key) : ∃ k', ratchetKey H k = .ok k' :=
  deriveKey_ok H _ _ _ (by decide) (by decide)

def nextKey (H : Hkdf) (k : Key) : Key :=
  match ratchetKey H k with
  | .ok k' => k'
  | .error _ => k

theorem ratchetKey_eq (H : Hkdf) (k : Key) : ratchetKey H k = .ok (nextKey H k) := by
  obtain ⟨k', hk⟩ := ratchetKey_ok H k
  rw [nextKey, hk]

/-- The `n`-th key of the ratchet chain that starts at `k`. -/
def chainKey (H : Hkdf) (k : Key) : Nat → Key
  | 0 => k
  | n + 1 => nextKey H (chainKey H k n)

end OmniMesh.Crypto

import Mathlib.Algebra.Ring.Nat
import OmniMesh.Crypto.Channel
import OmniMesh.Crypto.Handshake

/-!
# A concrete instance of the primitives

A key carries a counter in its first three bytes and the name of its chain in the fourth; ratcheting
counts up, and a ciphertext carries the first half of its key as its tag. The instance is there to run
the model: nothing general is proved from it.
-/

namespace OmniMesh.Crypto
open OmniMesh.Core

def plainKeys : KeyScheme := ⟨id, id, fun _ _ => "decrypt error"⟩

def keyByte (tag n : Nat) : Nat → UInt8
  | 0 => UInt8.ofNat n
  | 1 => UInt8.ofNat (n / 256)
  | 2 => UInt8.ofNat (n / 65536)
  | 3 => UInt8.ofNat tag
  | _ => 0

def counterKey (tag n : Nat) : Key := Vector.ofFn fun i : Fin 32 => keyByte tag n i.val

def countUp (ikm : Bytes) : Nat → UInt8 :=
  keyByte (ikm.getD 3 0).toNat
    ((ikm.getD 0 0).toNat + 256 * (ikm.getD 1 0).toNat + 65536 * (ikm.getD 2 0).toNat + 1)

/-- 64 bytes are the first keys of the chains 0 and 1; any other length continues a chain. -/
def counterHkdf : Hkdf where
  expand ikm _ _ n := .ok (Vector.ofFn fun i : Fin n =>
    if n = 64 then (if i.val = 35 then 1 else 0) else countUp ikm i.val)
  expand_ok _ _ _ _ _ := ⟨_, rfl⟩

/-- The length limit is the one of the `chacha20poly1305` crate. -/
def tagCipher : ChaCha20Poly1305 where
  maxLen := 64 * (2 ^ 32 - 1) - 1
  encrypt k _ p :=
    if p.length ≤ 64 * (2 ^ 32 - 1) - 1 then .ok (p ++ k.toList.take 16) else .error "aead::Error"
  decrypt k _ c :=
    if c.drop (c.length - 16) = k.toList.take 16 then .ok (c.take (c.length - 16))
    else .error "aead::Error"
  encrypt_ok k n p h := ⟨_, if_pos h⟩
  encrypt_error k n p h := ⟨_, if_neg (by omega)⟩
  encrypt_length k n p c h := by
    split at h
    · simp only [Except.ok.injEq] at h; subst h; simp
    · cases h
  decrypt_encrypt k n p c h := by
    split at h
    · simp only [Except.ok.injEq] at h
      subst h
      simp
    · cases h

theorem counterKey_getD (tag n : Nat) {i : Nat} (hi : i < 32) :
    (counterKey tag n).toList.getD i 0 = keyByte tag n i := by
  simp [counterKey, List.getD_eq_getElem?_getD, hi]

theorem nextKey_counterKey {tag n : Nat} (ht : tag < 256) (hn : n < 2 ^ 24) :
    nextKey counterHkdf (counterKey tag n) = counterKey tag (n + 1) := by
  have hcount : (keyByte tag n 0).toNat + 256 * (keyByte tag n 1).toNat
      + 65536 * (keyByte tag n 2).toNat = n := by
    simp only [keyByte, UInt8.toNat_ofNat']
    omega
  have htag : (keyByte tag n 3).toNat = tag := by
    simp only [keyByte, UInt8.toNat_ofNat']
    omega
  have hup : countUp (counterKey tag n).toList = keyByte tag (n + 1) := by
    rw [countUp, counterKey_getD tag n (by decide), counterKey_getD tag n (by decide),
      counterKey_getD tag n (by decide), counterKey_getD tag n (by decide), hcount, htag]
  have hexp : ratchetKey counterHkdf (counterKey tag n) =
      .ok (Vector.ofFn fun i : Fin 32 => countUp (counterKey tag n).toList i.val) := rfl
  rw [nextKey, hexp, hup]
  rfl

theorem chainKey_counterKey {tag : Nat} (ht : tag < 256) : ∀ n, n < 2 ^ 24 →
    chainKey counterHkdf (counterKey tag 0) n = counterKey tag n
  | 0, _ => rfl
  | n + 1, h => by
      rw [chainKey, chainKey_counterKey ht n (by omega), nextKey_counterKey ht (by omega)]

theorem counterKey_inj {tag tag' m n : Nat} (ht : tag < 256) (ht' : tag' < 256) (hm : m < 2 ^ 24)
    (hn : n < 2 ^ 24) (h : counterKey tag m = counterKey tag' n) : tag = tag' ∧ m = n := by
  have hbyte : ∀ i, i < 32 → (keyByte tag m i).toNat = (keyByte tag' n i).toNat := by
    intro i hi
    rw [← counterKey_getD tag m hi, h, counterKey_getD tag' n hi]
  have h0 := hbyte 0 (by decide)
  have h1 := hbyte 1 (by decide)
  have h2 := hbyte 2 (by decide)
  have h3 := hbyte 3 (by decide)
  simp only [keyByte, UInt8.toNat_ofNat'] at h0 h1 h2 h3
  omega

/-! ## The pair of the all-zero secret -/

def counterPair : Pair where
  chan
    | .initiator => ⟨counterKey 0 0, counterKey 1 0, 0, 0⟩
    | .responder => ⟨counterKey 1 0, counterKey 0 0, 0, 0⟩
  offered _ := []
  sealed _ := []
  got _ := []

theorem init_counterPair : Pair.init counterHkdf (Vector.replicate 32 0) = .ok counterPair := rfl

def someNonce : Nonce := Vector.replicate 12 7

def firstData (p : Bytes) : Bytes := someNonce.toList ++ (p ++ (counterKey 0 0).toList.take 16)

end OmniMesh.Crypto

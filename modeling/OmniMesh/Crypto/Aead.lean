import OmniMesh.Core.Types

/-!
# Authenticated encryption (`omnimesh-crypto/src/aead.rs`)

ChaCha20-Poly1305 is the `chacha20poly1305` crate and stays a parameter. The nonce that `encrypt` draws
from the random generator is an argument.
-/

namespace OmniMesh.Crypto
open OmniMesh.Core

def nonceSize : Nat := 12

def tagSize : Nat := 16

abbrev Nonce := Vector UInt8 12

/-- The cipher: correct, with a 16-byte tag, and total on the plaintexts up to its length limit. -/
structure ChaCha20Poly1305 where
  encrypt : Key → Nonce → Bytes → Except String Bytes
  decrypt : Key → Nonce → Bytes → Except String Bytes
  maxLen : Nat
  encrypt_ok : ∀ k n p, p.length ≤ maxLen → ∃ c, encrypt k n p = .ok c
  encrypt_error : ∀ k n p, maxLen < p.length → ∃ e, encrypt k n p = .error e
  encrypt_length : ∀ k n p c, encrypt k n p = .ok c → c.length = p.length + 16
  decrypt_encrypt : ∀ k n p c, encrypt k n p = .ok c → decrypt k n c = .ok p

namespace Aead

/-- `aead::encrypt`: `nonce || ciphertext || tag`. -/
def encrypt (C : ChaCha20Poly1305) (key : Key) (nonceBytes : Nonce) (plaintext : Bytes) :
    Result Bytes :=
  match C.encrypt key nonceBytes plaintext with
  | .error e => .error (.crypto s!"encryption failed: {e}")
  | .ok ciphertext => .ok (nonceBytes.toList ++ ciphertext)

def decrypt (C : ChaCha20Poly1305) (key : Key) (data : Bytes) : Result Bytes :=
  if h : data.length < nonceSize + tagSize then
    .error (.crypto s!"ciphertext too short: {data.length} bytes (minimum {nonceSize + tagSize})")
  else
    let nonceBytes : Nonce :=
      ⟨(data.take 12).toArray, by simp only [nonceSize, tagSize] at h; simp; omega⟩
    match C.decrypt key nonceBytes (data.drop 12) with
    | .error _ => .error (.crypto "decryption failed: invalid key or corrupted data")
    | .ok plaintext => .ok plaintext

variable {C : ChaCha20Poly1305} {k : Key} {n : Nonce} {p c : Bytes}

theorem encrypt_ok (h : p.length ≤ C.maxLen) : ∃ c, encrypt C k n p = .ok c := by
  obtain ⟨c, hc⟩ := C.encrypt_ok k n p h
  exact ⟨n.toList ++ c, by simp [encrypt, hc]⟩

theorem encrypt_error (h : C.maxLen < p.length) : ∃ e, encrypt C k n p = .error e := by
  obtain ⟨e, he⟩ := C.encrypt_error k n p h
  refine ⟨.crypto s!"encryption failed: {e}", ?_⟩
  simp only [encrypt, he]

theorem decrypt_encrypt (h : encrypt C k n p = .ok c) : decrypt C k c = .ok p := by
  unfold encrypt at h
  split at h
  · cases h
  · rename_i body hbody
    simp only [Except.ok.injEq] at h
    subst h
    have hlen := C.encrypt_length _ _ _ _ hbody
    have hn : n.toList.length = 12 := by simp
    have htake : (n.toList ++ body).take 12 = n.toList := List.take_left' hn
    have hdrop : (n.toList ++ body).drop 12 = body := List.drop_left' hn
    unfold decrypt
    rw [dif_neg (by simp only [nonceSize, tagSize, List.length_append, hn]; omega)]
    simp only [htake, hdrop]
    have hvec : (⟨n.toList.toArray, by simp⟩ : Nonce) = n :=
      Vector.toArray_inj.mp rfl
    rw [hvec, C.decrypt_encrypt _ _ _ _ hbody]

end Aead

end OmniMesh.Crypto

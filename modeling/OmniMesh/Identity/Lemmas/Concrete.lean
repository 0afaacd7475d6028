import OmniMesh.Crypto.Lemmas.Concrete
import OmniMesh.Identity.KeyStore
import OmniMesh.Lib.Codec

/-!
# A concrete instance of the primitives of the key store

A record is written byte by byte, each byte as one character. Two passphrases have keys of their own. The
instance is there to run the model: nothing general is proved from it.
-/

namespace OmniMesh.Identity
open OmniMesh.Core OmniMesh.Crypto

def byteChar (b : UInt8) : Char := Char.ofNat b.toNat

def charByte (c : Char) : UInt8 := UInt8.ofNat c.toNat

theorem charByte_byteChar (b : UInt8) : charByte (byteChar b) = b := by
  have hvalid : b.toNat.isValidChar := .inl (by have := b.toNat_lt; omega)
  rw [charByte, byteChar, Char.ofNat, dif_pos hvalid]
  exact UInt8.ofNat_toNat

def u32 : Codec UInt32 := (Codec.nat 4).map UInt32.ofNat UInt32.toNat fun _ => UInt32.ofNat_toNat

def EncryptedKey.codec : Codec EncryptedKey :=
  (Codec.pair u32 (.pair (.array 12) (.pair .bytes (.pair (.array 32) .string)))).map
    (fun r => ⟨r.1, r.2.1, r.2.2.1, r.2.2.2.1, r.2.2.2.2⟩)
    (fun r => (r.version, r.nonce, r.ciphertext, r.salt, r.createdAt)) fun _ => rfl

theorem EncryptedKey.codec_fits {record : EncryptedKey} (hlen : record.ciphertext.length = 48)
    (hsize : record.createdAt.utf8ByteSize < 2 ^ 64) : EncryptedKey.codec.Fits record := by
  refine ⟨lt_of_lt_of_eq record.version.toNat_lt (by norm_num), trivial, ?_, trivial, ?_⟩
  · show record.ciphertext.length < 256 ^ 8
    rw [hlen]
    decide
  · exact lt_of_lt_of_eq hsize (by norm_num)

def plainKey (passphrase : String) : Key :=
  if passphrase = "wrong" then Vector.replicate 32 1 else Vector.replicate 32 0

theorem tagCipher_rejects {k k' : Key} {n : Nonce} {p c : Bytes}
    (hne : k.toList.take 16 ≠ k'.toList.take 16) (hc : tagCipher.encrypt k n p = .ok c) :
    ∃ e, tagCipher.decrypt k' n c = .error e := by
  refine ⟨"aead::Error", ?_⟩
  simp only [tagCipher] at hc ⊢
  split at hc
  · cases hc
    rw [if_neg]
    simpa using hne
  · cases hc

def plainPrimitives : Primitives where
  cipher := tagCipher
  deriveKey passphrase _ := plainKey passphrase
  toJson record := String.ofList ((EncryptedKey.codec.serialize record).map byteChar)
  fromJson text := EncryptedKey.codec.deserialize (text.toList.map charByte)
  words word := word = "right" ∨ word = "wrong"
  seed_fits := by decide
  fromJson_toJson record hlen hsize := by
    have hbytes : (fun b => charByte (byteChar b)) = id := funext charByte_byteChar
    rw [String.toList_ofList, List.map_map, Function.comp_def, hbytes, List.map_id]
    exact Codec.deserialize_serialize (EncryptedKey.codec_fits hlen hsize)
  fromJson_empty := ⟨_, rfl⟩
  rejects right wrong salt nonce seed c hright hwrong hne hc := by
    refine tagCipher_rejects ?_ hc
    rcases hright with rfl | rfl
    · rcases hwrong with rfl | rfl
      · exact absurd rfl hne
      · decide
    · rcases hwrong with rfl | rfl
      · decide
      · exact absurd rfl hne

end OmniMesh.Identity

import OmniMesh.Lib.Exact
import OmniMesh.Sdk.Lemmas.Wire

/-!
# The packets that a session accepts
-/

namespace OmniMesh.Sdk
open OmniMesh.Core OmniMesh.Crypto

theorem WirePacket.codec_exact : WirePacket.codec.Exact :=
  ((Codec.exact_array 4).pair ((Codec.exact_array 3).pair (Codec.exact_u8.pair Codec.exact_bytes))).map
    fun _ _ => rfl

/-- A session opens exactly the packets that carry the magic, a type that is handled and what its peer has
sealed under the next nonce. The version, the type and bytes after the packet are free: nothing ties them
to what was sealed. -/
theorem openPacket_accepts_iff (K : Role → Cipher) (t t' : NoiseTransport) (bytes plain : Bytes) (ty : UInt8) :
    openPacket K t bytes = (.ok (some (ty, plain)), t') ↔
      PacketType.Handled ty ∧ t' = { t with recvNonce := t.recvNonce + 1 } ∧
      ∃ c version rest, (K t.role.other).encrypt t.recvNonce plain = .ok c ∧
        bytes = WirePacket.codec.serialize ⟨WirePacket.omsh, version, ty, c⟩ ++ rest := by
  constructor
  · intro h
    have hopens := openPacket_opens (K := K) (t := t) bytes
    rw [h] at hopens
    cases hopens with
    | @opened packet _ hd hmagic hty hdec =>
        obtain ⟨-, rest, hbytes⟩ := WirePacket.codec_exact.deserialize_iff.mp hd
        refine ⟨hty, rfl, packet.payload, packet.version, rest, ?_, ?_⟩
        · exact (K t.role.other).encrypt_of_decrypt _ _ _ hdec
        · rw [hbytes, ← hmagic]
  · rintro ⟨hty, rfl, c, version, rest, hc, rfl⟩
    have hlen : c.length < 256 ^ 8 := by
      have := ((K t.role.other).encrypt_limit _ _ _ hc).2.2
      unfold maxMessageLen at this
      omega
    have hd : WirePacket.codec.deserialize
        (WirePacket.codec.serialize ⟨WirePacket.omsh, version, ty, c⟩ ++ rest) =
          .ok ⟨WirePacket.omsh, version, ty, c⟩ :=
      WirePacket.codec_exact.deserialize_iff.mpr ⟨WirePacket.codec_fits hlen, rest, rfl⟩
    have hty' : ty ∈ [0x02, 0x03, 0x06, 0x07] := hty
    rw [openPacket, hd]
    simp only [ne_eq, not_true_eq_false, if_false, if_pos hty', NoiseTransport.decrypt_sealed hc]

end OmniMesh.Sdk

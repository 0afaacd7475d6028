import OmniMesh.Sdk.Wire

/-!
# What `handle_wire_packet` can do

One rule for each outcome of the two halves.
-/

namespace OmniMesh.Sdk
open OmniMesh.Core OmniMesh.Crypto OmniMesh.Routing

variable {K : Role → Cipher} {t : NoiseTransport} {D : UpdateDecoder} {env : Env}

theorem WirePacket.codec_fits {packet : WirePacket} (h : packet.payload.length < 256 ^ 8) :
    WirePacket.codec.Fits packet :=
  ⟨trivial, trivial, Codec.u8_fits _, h⟩

def PacketType.Handled (ty : UInt8) : Prop := ty ∈ [0x02, 0x03, 0x06, 0x07]

theorem Sender.handled (sender : Sender) : PacketType.Handled sender.packetType := by
  cases sender with
  | sendToPeer => exact List.mem_cons_self
  | broadcastToPeers => exact List.mem_cons_self
  | probingLoop => exact .tail _ (.tail _ (.head _))
  | gossipLoop => exact .tail _ (.head _)

/-! ## The first half -/

inductive Opens (K : Role → Cipher) (t : NoiseTransport) (bytes : Bytes) :
    Result (Option (UInt8 × Bytes)) × NoiseTransport → Prop
  | refused (e) : Opens K t bytes (.error e, t)
  | ignored : Opens K t bytes (.ok none, t)
  | opened {packet decrypted} :
      WirePacket.codec.deserialize bytes = .ok packet → packet.magic = WirePacket.omsh →
      PacketType.Handled packet.packetType →
      (K t.role.other).decrypt t.recvNonce packet.payload = .ok decrypted →
      Opens K t bytes
        (.ok (some (packet.packetType, decrypted)), { t with recvNonce := t.recvNonce + 1 })

theorem openPacket_opens (bytes : Bytes) : Opens K t bytes (openPacket K t bytes) := by
  unfold openPacket
  split
  · exact .refused _
  · rename_i packet hp
    split
    · exact .refused _
    · rename_i hmagic
      split
      · rename_i hty
        split
        · rename_i e t' hd
          rw [NoiseTransport.decrypt_error hd]
          exact .refused e
        · rename_i decrypted t' hd
          obtain ⟨hopen, rfl⟩ := NoiseTransport.decrypt_cases hd
          exact .opened hp (not_not.mp hmagic) hty hopen
      · exact .ignored

theorem openPacket_sealed {ty p c} (hty : PacketType.Handled ty)
    (h : (K t.role.other).encrypt t.recvNonce p = .ok c) :
    openPacket K t (WirePacket.codec.serialize (.sealed ty c)) =
      (.ok (some (ty, p)), { t with recvNonce := t.recvNonce + 1 }) := by
  have hlen : c.length < 256 ^ 8 := by
    have := ((K t.role.other).encrypt_limit _ _ _ h).2.2
    unfold maxMessageLen at this
    omega
  have hd : WirePacket.codec.deserialize (WirePacket.codec.serialize (.sealed ty c)) =
      .ok (.sealed ty c) :=
    Codec.deserialize_serialize (WirePacket.codec_fits hlen)
  have hm : (WirePacket.sealed ty c).magic = WirePacket.omsh := rfl
  have ht : (WirePacket.sealed ty c).packetType ∈ [0x02, 0x03, 0x06, 0x07] := hty
  rw [openPacket, hd]
  simp only [hm, ne_eq, not_true_eq_false, if_false, if_pos ht]
  rw [show (WirePacket.sealed ty c).payload = c from rfl, NoiseTransport.decrypt_sealed h]
  rfl

/-! ## The second half -/

inductive Finishes (K : Role → Cipher) (D : UpdateDecoder) (env : Env) (t : NoiseTransport) (ty : UInt8)
    (p : Bytes) :
    Result (Option Bytes) × NoiseTransport × List Effect → Prop
  | failed (e) : Finishes K D env t ty p (.error e, t, [])
  | quiet : Finishes K D env t ty p (.ok none, t, [])
  | dispatched {sp} : ty = PacketType.data → ServicePayload.codec.deserialize p = .ok sp →
      Finishes K D env t ty p (.ok none, t, [.dispatch sp.serviceId sp.payload])
  | dispatchFailed {sp} (e) : ty = PacketType.data → ServicePayload.codec.deserialize p = .ok sp →
      Finishes K D env t ty p (.error e, t, [.dispatch sp.serviceId sp.payload])
  | routed {update} : ty = PacketType.control → D p = .ok update →
      Finishes K D env t ty p (.ok none, t, [.linkState update])
  | ponged {c} : ty = PacketType.ping → (K t.role).encrypt t.sendNonce p = .ok c →
      Finishes K D env t ty p
        (.ok (some (WirePacket.codec.serialize (.sealed PacketType.pong c))),
          { t with sendNonce := t.sendNonce + 1 }, [.pong p])
  | sampled {sent} : ty = PacketType.pong → Codec.u64.deserialize p = .ok sent → sent ≤ env.nowMs →
      Finishes K D env t ty p (.ok none, t, [.latency env.nowMs sent])

theorem finishPacket_finishes (ty : UInt8) (p : Bytes) :
    Finishes K D env t ty p (finishPacket K D env t ty p) := by
  unfold finishPacket
  split
  · rename_i hty
    split
    · exact .failed _
    · rename_i sp hsp
      split
      · exact .quiet
      · dsimp only
        split
        · exact .dispatchFailed _ hty hsp
        · exact .dispatched hty hsp
  · split
    · rename_i hty
      split
      · exact .quiet
      · rename_i update hu
        exact .routed hty hu
    · split
      · rename_i hty
        split
        · rename_i e t' he
          rw [NoiseTransport.encrypt_error he]
          exact .failed e
        · rename_i c t' hc
          obtain ⟨hseal, rfl⟩ := NoiseTransport.encrypt_cases hc
          exact .ponged hty hseal
      · split
        · rename_i hty
          split
          · exact .quiet
          · rename_i sent hs
            split
            · rename_i hle
              exact .sampled hty hs hle
            · exact .quiet
        · exact .quiet

end OmniMesh.Sdk

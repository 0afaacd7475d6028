import OmniMesh.Sdk.Lemmas.Wire
import OmniMesh.Sdk.SessionLoop

/-!
# Packets in the session loop
-/

namespace OmniMesh.Sdk.SessionLoop
open OmniMesh.Core OmniMesh.Crypto OmniMesh.Routing

variable {σ : Type} {K : Role → Cipher} {D : UpdateDecoder} {S : Services σ} {peer : PeerId}
  {s : SessionLoop σ} {bytes : Bytes}

/-- When no other task comes between, reading and handling a packet is `handle_wire_packet`. -/
theorem run_recv_handle {ty p t nowMs} (hidle : s.loop = .idle)
    (ho : openPacket K s.shared.transport bytes = (.ok (some (ty, p)), t)) {result transport effects}
    (hout : handleWirePacket K D (S.env peer s.shared.services nowMs) s.shared.transport bytes =
      (result, transport, effects)) :
    Lts.run (SessionLoop.step K D S peer) s [.recv bytes, .handle nowMs] = some { s with
      shared := effects.foldl (Shared.apply S peer) { s.shared with transport }
      loop := match result with
        | .ok (some reply) => .sending reply
        | _ => .idle
      effects := s.effects ++ effects } := by
  simp only [handleWirePacket, ho] at hout
  simp only [Lts.run, step, hidle, ho, Option.bind_some, hout]
  rcases result with e | _ | reply
  · rfl
  · rfl
  · rfl

/-- What a step adds to the histories. -/
inductive Adds (K : Role → Cipher) (D : UpdateDecoder) (S : Services σ) (peer : PeerId)
    (s : SessionLoop σ) : LoopAct σ → SessionLoop σ → Prop
  | sent {act t} : (∀ bytes ∈ s.sent, bytes ∈ t.sent) → t.effects = s.effects → Adds K D S peer s act t
  | handled {nowMs ty p t} : s.loop = .handling ty p → t.sent = s.sent →
      t.effects = s.effects ++
        (finishPacket K D (S.env peer s.shared.services nowMs) s.shared.transport ty p).2.2 →
      Adds K D S peer s (.handle nowMs) t

theorem step_adds {act t} (hs : s.step K D S peer act = some t) : Adds K D S peer s act t := by
  cases act with
  | pop =>
      simp only [step] at hs
      split at hs
      · cases hs
        exact .sent (fun _ h => h) rfl
      · cases hs
  | sent outcome =>
      simp only [step] at hs
      split at hs
      · cases hs
        exact .sent (fun _ h => List.mem_append_left _ h) rfl
      · cases hs
        exact .sent (fun _ h => h) rfl
      · cases hs
  | recv bytes =>
      simp only [step] at hs
      split at hs
      · split at hs <;> cases hs <;> exact .sent (fun _ h => h) rfl
      · cases hs
  | handle nowMs =>
      simp only [step] at hs
      split at hs
      · rename_i ty p hloop
        split at hs
        · rename_i hout
          cases hs
          exact .handled hloop rfl (by rw [hout])
        · rename_i hout
          cases hs
          exact .handled hloop rfl (by rw [hout])
      · cases hs
  | stop =>
      simp only [step] at hs
      split at hs
      · cases hs
        exact .sent (fun _ h => h) rfl
      · cases hs
  | other act =>
      cases hs
      exact .sent (fun _ h => h) rfl

/-! ## Unauthentic input -/

/-- Such bytes are refused or ignored, with the transport as it was. -/
theorem Unauthentic.opens {t : NoiseTransport} (h : Unauthentic K t bytes) :
    (∃ e, openPacket K t bytes = (.error e, t)) ∨ openPacket K t bytes = (.ok none, t) := by
  generalize hout : openPacket K t bytes = out
  have hopens : Opens K t bytes out := hout ▸ openPacket_opens bytes
  cases hopens with
  | refused e => exact .inl ⟨e, rfl⟩
  | ignored => exact .inr rfl
  | @opened packet decrypted hd hmagic hty hopen =>
      have hdec : t.decrypt K packet.payload = (.ok decrypted, { t with recvNonce := t.recvNonce + 1 }) := by
        rw [NoiseTransport.decrypt, hopen]
      exact absurd ⟨packet, decrypted, _, hd, hmagic, hty, hdec⟩ h

theorem step_unauthentic (hidle : s.loop = .idle) (h : Unauthentic K s.shared.transport bytes) :
    s.step K D S peer (.recv bytes) = some s := by
  rcases s with ⟨shared, loop, effects, sent⟩
  subst hidle
  rcases h.opens with ⟨e, ho⟩ | ho
  · simp only [step, ho]
  · simp only [step, ho]

theorem Injects.run_eq {acts acts' : List (LoopAct σ)} (h : Injects K D S peer s acts acts') :
    Lts.run (SessionLoop.step K D S peer) s acts' = Lts.run (SessionLoop.step K D S peer) s acts := by
  induction h with
  | nil => rfl
  | @keep s act acts acts' _ ih =>
      cases hs : s.step K D S peer act with
      | none => simp only [Lts.run, hs, Option.bind_none]
      | some t =>
          simp only [Lts.run, hs, Option.bind_some]
          exact ih t hs
  | inject hidle hu _ ih =>
      simp only [Lts.run, step_unauthentic hidle hu, Option.bind_some]
      exact ih

end OmniMesh.Sdk.SessionLoop

import OmniMesh.Sdk.Lemmas.SessionLoop
import OmniMesh.Sdk.Probing

/-!
# Samples and pings
-/

namespace OmniMesh.Sdk
open OmniMesh.Core OmniMesh.Crypto

variable {σ : Type} {K : Role → Cipher} {D : UpdateDecoder} {S : Services σ} {peer : PeerId}

/-- Only a pong with a timestamp that is not in the future gives a sample. -/
theorem Finishes.sampled_cases {env : Env} {transport : NoiseTransport} {ty : UInt8} {p : Bytes} {out}
    (h : Finishes K D env transport ty p out) : out.2.2.filterMap Effect.sampledTime = [] ∨
      ∃ time, ty = PacketType.pong ∧ Codec.u64.deserialize p = .ok time ∧ time ≤ env.nowMs ∧
        out.2.2.filterMap Effect.sampledTime = [time] := by
  cases h with
  | failed e => exact .inl rfl
  | quiet => exact .inl rfl
  | dispatched => exact .inl rfl
  | dispatchFailed => exact .inl rfl
  | routed => exact .inl rfl
  | ponged => exact .inl rfl
  | @sampled time hty hp hle => exact .inr ⟨time, hty, hp, hle, rfl⟩

namespace ProbedSession

variable {s t : ProbedSession σ} {act : ProbeAct σ}

/-- What a step can do to the histories. -/
inductive Moves (K : Role → Cipher) (D : UpdateDecoder) (S : Services σ) (peer : PeerId)
    (s : ProbedSession σ) : ProbeAct σ → ProbedSession σ → Prop
  | quiet {act : ProbeAct σ} {t : ProbedSession σ} : s.pings <+: t.pings →
      (∀ bytes ∈ s.session.sent, bytes ∈ t.session.sent) → t.session.effects = s.session.effects →
      Moves K D S peer s act t
  | handled {nowMs ty p} {t : ProbedSession σ} : s.session.loop = .handling ty p → t.pings = s.pings →
      t.session.sent = s.session.sent →
      t.session.effects = s.session.effects ++ (finishPacket K D
        (S.env peer s.session.shared.services nowMs) s.session.shared.transport ty p).2.2 →
      Moves K D S peer s (.session (.handle nowMs)) t

theorem step_moves (hs : s.step K D S peer act = some t) : Moves K D S peer s act t := by
  cases act with
  | ping nowMs =>
      simp only [step] at hs
      split at hs
      · cases hs
        exact .quiet List.prefix_rfl (fun _ h => h) rfl
      · cases hs
        exact .quiet (List.prefix_append _ _) (fun _ h => h) rfl
  | session act =>
      obtain ⟨session, hsession, rfl⟩ := Option.map_eq_some_iff.mp hs
      cases SessionLoop.step_adds hsession with
      | sent hsent heffects => exact .quiet List.prefix_rfl hsent heffects
      | handled hloop hsent heffects => exact .handled hloop rfl hsent heffects

theorem count_sentTimes_le (hpings : s.pings <+: t.pings)
    (hsent : ∀ bytes ∈ s.session.sent, bytes ∈ t.session.sent) (time : UInt64) :
    s.sentTimes.count time ≤ t.sentTimes.count time := by
  apply List.Sublist.count_le
  apply List.Sublist.map
  have hout : List.Sublist (s.pings.filter fun ping => ping.2 ∈ s.session.sent)
      (s.pings.filter fun ping => ping.2 ∈ t.session.sent) :=
    List.monotone_filter_right _ fun ping h => by simpa using hsent _ (by simpa using h)
  exact hout.trans (hpings.sublist.filter _)

/-- The samples after `handle_wire_packet`. -/
theorem sampledTimes_append {effects} (h : t.session.effects = s.session.effects ++ effects) :
    t.sampledTimes = s.sampledTimes ++ effects.filterMap Effect.sampledTime := by
  rw [sampledTimes, h, List.filterMap_append]
  rfl

theorem Genuine.step (h : s.Genuine) (ha : s.Answers act) (hs : s.step K D S peer act = some t) :
    t.Genuine := by
  intro time
  cases step_moves hs with
  | quiet hpings hsent heffects =>
      have hsampled : t.sampledTimes = s.sampledTimes := by rw [sampledTimes, heffects, sampledTimes]
      rw [hsampled]
      exact (h time).trans (count_sentTimes_le hpings hsent time)
  | @handled nowMs ty p t hloop hpings hsent heffects =>
      have hsentTimes : t.sentTimes = s.sentTimes := by rw [sentTimes, hpings, hsent, sentTimes]
      rw [hsentTimes, sampledTimes_append heffects]
      rcases (finishPacket_finishes ty p).sampled_cases with hnone | ⟨time', rfl, hp, hle, hone⟩
      · rw [hnone, List.append_nil]
        exact h time
      · rw [hone, List.count_append]
        by_cases heq : time' = time
        · subst heq
          have := ha p time' hloop hp hle
          simp only [List.count_singleton_self]
          omega
        · simpa [heq] using h time

end ProbedSession

end OmniMesh.Sdk

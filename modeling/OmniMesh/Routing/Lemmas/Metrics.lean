import OmniMesh.Lib.Average
import OmniMesh.Routing.Metrics

/-!
# Trackers under all calls
-/

namespace OmniMesh.Routing

variable {m m' : LinkMetrics} {t t' : LinkMetricTracker} {call call' : TrackerCall}
  {calls calls' : List TrackerCall}

theorem emaAlpha_nonneg : 0 ≤ emaAlpha := by norm_num [emaAlpha]

theorem emaAlpha_le_one : emaAlpha ≤ 1 := by norm_num [emaAlpha]

theorem ema_mono {x y old old' : ℚ} (hx : x ≤ y) (hold : old ≤ old') :
    LinkMetricTracker.ema x old ≤ LinkMetricTracker.ema y old' :=
  Average.ema_mono emaAlpha_nonneg emaAlpha_le_one hx hold

theorem ema_nonneg {x old : ℚ} (hx : 0 ≤ x) (hold : 0 ≤ old) : 0 ≤ LinkMetricTracker.ema x old := by
  have hzero : LinkMetricTracker.ema 0 0 = 0 := Average.ema_self emaAlpha 0
  rw [← hzero]
  exact ema_mono hx hold

theorem ema_le_one {x old : ℚ} (hx : x ≤ 1) (hold : old ≤ 1) : LinkMetricTracker.ema x old ≤ 1 := by
  have hone : LinkMetricTracker.ema 1 1 = 1 := Average.ema_self emaAlpha 1
  rw [← hone]
  exact ema_mono hx hold

theorem clamp_mono {x y : ℚ} (h : x ≤ y) : max 0 (min x 1) ≤ max 0 (min y 1) :=
  max_le_max le_rfl (min_le_min h le_rfl)

theorem cost_denominator_pos (kbps : ℚ) : 0 < max (kbps / 1000) (1 / 10) :=
  lt_max_of_lt_right (by norm_num)

/-! ## Costs that are not negative -/

/-- Metrics in the ranges their descriptions give. -/
structure LinkMetrics.InRange (m : LinkMetrics) : Prop where
  latencyMs : 0 ≤ m.latencyMs
  lossRate : 0 ≤ m.lossRate
  relayCost : 0 ≤ m.relayCost

theorem LinkMetrics.InRange.cost_nonneg (h : m.InRange) : 0 ≤ m.cost := by
  obtain ⟨hl, hr, hc⟩ := h
  have hbw := cost_denominator_pos m.bandwidthKbps
  exact add_nonneg (div_nonneg (mul_nonneg hl (add_nonneg zero_le_one hr)) hbw.le) hc

/-! ## Costs that are positive -/

/-- A tracker that has only seen samples that are not negative. -/
structure LinkMetricTracker.Positive (t : LinkMetricTracker) : Prop where
  latency : 0 < t.latencyEma
  lossRate : 0 ≤ t.lossRateEma
  relayCost : 0 ≤ t.relayCost

namespace LinkMetricTracker.Positive

variable {sample : Measurement}

theorem default : (LinkMetricTracker.new .default).Positive :=
  ⟨by decide, by decide, by decide⟩

theorem record (h : t.Positive) (hm : 0 ≤ sample.value) : (sample.record t).Positive := by
  cases sample with
  | latency ms =>
      refine ⟨?_, h.lossRate, h.relayCost⟩
      have hkeep : (0 : ℚ) < 1 - 1 / 5 := by norm_num
      exact add_pos_of_nonneg_of_pos (mul_nonneg (by norm_num [emaAlpha]) hm) (mul_pos hkeep h.latency)
  | bandwidth kbps => exact ⟨h.latency, h.lossRate, h.relayCost⟩
  | lossRate rate => exact ⟨h.latency, ema_nonneg (le_max_left ..) h.lossRate, h.relayCost⟩

theorem recordAll {samples : List Measurement} (h : t.Positive) (hs : ∀ m ∈ samples, 0 ≤ m.value) :
    (t.recordAll samples).Positive := by
  induction samples generalizing t with
  | nil => exact h
  | cons m samples ih =>
      obtain ⟨hm, hs⟩ := List.forall_mem_cons.mp hs
      exact ih (h.record hm) hs

theorem cost_pos (h : t.Positive) : 0 < t.metrics.cost := by
  have hbw := cost_denominator_pos t.bandwidthEma
  have hloss : 0 < 1 + t.lossRateEma := add_pos_of_pos_of_nonneg one_pos h.lossRate
  exact add_pos_of_pos_of_nonneg (div_pos (mul_pos h.latency hloss) hbw) h.relayCost

end LinkMetricTracker.Positive

/-! ## Each metric is an average of its samples -/

namespace LinkMetricTracker

/-- A metric that a call with a sample for it averages, and that other calls leave alone. -/
theorem applyAll_eq_smooth {f : LinkMetricTracker → ℚ} {sample : TrackerCall → Option ℚ}
    (h : ∀ t call, f (call.apply t) = (sample call).elim (f t) fun x => ema x (f t)) :
    f (t.applyAll calls) = Average.smooth emaAlpha (f t) (calls.filterMap sample) := by
  induction calls generalizing t with
  | nil => rfl
  | cons call calls ih =>
      have hfirst : t.applyAll (call :: calls) = (call.apply t).applyAll calls := rfl
      rw [hfirst, ih, h]
      cases hx : sample call with
      | none => rw [List.filterMap_cons_none hx, Option.elim_none]
      | some x =>
          rw [List.filterMap_cons_some hx, Option.elim_some]
          rfl

theorem latencyEma_applyAll : (t.applyAll calls).latencyEma =
    Average.smooth emaAlpha t.latencyEma (calls.filterMap TrackerCall.latency) := by
  apply applyAll_eq_smooth (f := latencyEma)
  rintro t ((_ | _ | _) | _) <;> rfl

theorem bandwidthEma_applyAll : (t.applyAll calls).bandwidthEma =
    Average.smooth emaAlpha t.bandwidthEma (calls.filterMap TrackerCall.bandwidth) := by
  apply applyAll_eq_smooth (f := bandwidthEma)
  rintro t ((_ | _ | _) | _) <;> rfl

theorem lossRateEma_applyAll : (t.applyAll calls).lossRateEma =
    Average.smooth emaAlpha t.lossRateEma (calls.filterMap TrackerCall.lossRate) := by
  apply applyAll_eq_smooth (f := lossRateEma)
  rintro t ((_ | _ | _) | _) <;> rfl

theorem latencyEma_nonneg (h : 0 ≤ t.latencyEma)
    (hcalls : ∀ ms ∈ calls.filterMap TrackerCall.latency, 0 ≤ ms) : 0 ≤ (t.applyAll calls).latencyEma := by
  rw [latencyEma_applyAll]
  exact Average.le_smooth emaAlpha_nonneg emaAlpha_le_one h hcalls

theorem lossRate_mem {x : ℚ} (h : x ∈ calls.filterMap TrackerCall.lossRate) : 0 ≤ x ∧ x ≤ 1 := by
  obtain ⟨call, _, hx⟩ := List.mem_filterMap.mp h
  rcases call with (_ | _ | rate) | _ <;> cases hx
  exact ⟨le_max_left _ _, max_le zero_le_one (min_le_right _ _)⟩

theorem lossRateEma_mem (h0 : 0 ≤ t.lossRateEma) (h1 : t.lossRateEma ≤ 1) :
    0 ≤ (t.applyAll calls).lossRateEma ∧ (t.applyAll calls).lossRateEma ≤ 1 := by
  rw [lossRateEma_applyAll]
  constructor
  · exact Average.le_smooth emaAlpha_nonneg emaAlpha_le_one h0 fun x hx => (lossRate_mem hx).1
  · exact Average.smooth_le emaAlpha_nonneg emaAlpha_le_one h1 fun x hx => (lossRate_mem hx).2

theorem relayCost_nonneg (h : 0 ≤ t.relayCost)
    (hcalls : ∀ cost ∈ calls.filterMap TrackerCall.relayCost, 0 ≤ cost) :
    0 ≤ (t.applyAll calls).relayCost := by
  induction calls generalizing t with
  | nil => exact h
  | cons call calls ih =>
      rcases call with (_ | _ | _) | cost
      · exact ih h hcalls
      · exact ih h hcalls
      · exact ih h hcalls
      · obtain ⟨hcost, hcalls⟩ := List.forall_mem_cons.mp hcalls
        exact ih hcost hcalls

end LinkMetricTracker

/-! ## Worse measurements -/

theorem LinkMetrics.Worse.cost_le (h : m.Worse m') : m.cost ≤ m'.cost := by
  have hloss : 0 ≤ 1 + m.lossRate := add_nonneg zero_le_one h.lossRate_nonneg
  have hnum : m.latencyMs * (1 + m.lossRate) ≤ m'.latencyMs * (1 + m'.lossRate) :=
    mul_le_mul h.latency (add_le_add_right h.lossRate 1) hloss (h.latency_nonneg.trans h.latency)
  have hnum' : 0 ≤ m'.latencyMs * (1 + m'.lossRate) :=
    (mul_nonneg h.latency_nonneg hloss).trans hnum
  have hbw : max (m'.bandwidthKbps / 1000) (1 / 10) ≤ max (m.bandwidthKbps / 1000) (1 / 10) := by
    apply max_le_max _ le_rfl
    exact div_le_div_of_nonneg_right h.bandwidth (by norm_num)
  exact add_le_add (div_le_div₀ hnum' hnum (cost_denominator_pos _) hbw) h.relayCost

theorem TrackerCall.Worse.apply (h : call.Worse call') (hm : t.metrics.Worse t'.metrics) :
    (call.apply t).metrics.Worse (call'.apply t').metrics := by
  obtain ⟨hlat0, hlat, hbw, hloss0, hloss, hloss1, hrelay⟩ := hm
  cases h with
  | latency h0 hle =>
      exact ⟨ema_nonneg h0 hlat0, ema_mono hle hlat, hbw, hloss0, hloss, hloss1, hrelay⟩
  | bandwidth hle => exact ⟨hlat0, hlat, ema_mono hle hbw, hloss0, hloss, hloss1, hrelay⟩
  | lossRate hle =>
      refine ⟨hlat0, hlat, hbw, ema_nonneg (le_max_left _ _) hloss0, ema_mono (clamp_mono hle) hloss, ?_,
        hrelay⟩
      exact ema_le_one (max_le zero_le_one (min_le_right _ _)) hloss1
  | relayCost hle => exact ⟨hlat0, hlat, hbw, hloss0, hloss, hloss1, hle⟩

theorem applyAll_worse (h : List.Forall₂ TrackerCall.Worse calls calls')
    (hm : t.metrics.Worse t'.metrics) : (t.applyAll calls).metrics.Worse (t'.applyAll calls').metrics := by
  induction h generalizing t t' with
  | nil => exact hm
  | cons hcall _ ih => exact ih (hcall.apply hm)

end OmniMesh.Routing

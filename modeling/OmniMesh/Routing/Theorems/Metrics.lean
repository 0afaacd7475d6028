import OmniMesh.Routing.Lemmas.Metrics

/-!
# The metrics of a link
-/

namespace OmniMesh.Routing

/-- The value is the average of the samples, the later ones with more weight, and lies between the least
and the greatest of them. -/
structure Averages (initial : ℚ) (samples : List ℚ) (value : ℚ) : Prop where
  value_eq : value = (4 / 5) ^ samples.length * initial +
    ∑ i : Fin samples.length, 1 / 5 * (4 / 5) ^ (samples.length - (i + 1)) * samples.get i
  lowest_le : Average.lowest initial samples ≤ value
  le_highest : value ≤ Average.highest initial samples

theorem averages_smooth (initial : ℚ) (samples : List ℚ) :
    Averages initial samples (Average.smooth emaAlpha initial samples) where
  value_eq := by
    have hkeep : (1 : ℚ) - emaAlpha = 4 / 5 := by norm_num [emaAlpha]
    rw [Average.smooth_eq, hkeep, emaAlpha]
  lowest_le := Average.lowest_le_smooth emaAlpha_nonneg emaAlpha_le_one
  le_highest := Average.smooth_le_highest emaAlpha_nonneg emaAlpha_le_one

/-- Each metric is the average of its own samples, whatever other calls come between them, and the
cost of a link is not negative. -/
theorem tracker_averages (initial : LinkMetrics) (calls : List TrackerCall) :
    Averages initial.latencyMs (calls.filterMap TrackerCall.latency)
      (initial.track calls).metrics.latencyMs ∧
    Averages initial.bandwidthKbps (calls.filterMap TrackerCall.bandwidth)
      (initial.track calls).metrics.bandwidthKbps ∧
    Averages initial.lossRate (calls.filterMap TrackerCall.lossRate)
      (initial.track calls).metrics.lossRate ∧
    (0 ≤ initial.lossRate → initial.lossRate ≤ 1 →
      (0 ≤ (initial.track calls).metrics.lossRate ∧ (initial.track calls).metrics.lossRate ≤ 1) ∧
      (0 ≤ initial.latencyMs → (∀ ms ∈ calls.filterMap TrackerCall.latency, 0 ≤ ms) →
        0 ≤ initial.relayCost → (∀ cost ∈ calls.filterMap TrackerCall.relayCost, 0 ≤ cost) →
        0 ≤ (initial.track calls).cost)) := by
  refine ⟨?_, ?_, ?_, fun h0 h1 => ?_⟩
  · rw [LinkMetrics.track, LinkMetricTracker.metrics, LinkMetricTracker.latencyEma_applyAll]
    exact averages_smooth _ _
  · rw [LinkMetrics.track, LinkMetricTracker.metrics, LinkMetricTracker.bandwidthEma_applyAll]
    exact averages_smooth _ _
  · rw [LinkMetrics.track, LinkMetricTracker.metrics, LinkMetricTracker.lossRateEma_applyAll]
    exact averages_smooth _ _
  · have hloss : 0 ≤ (initial.track calls).lossRateEma ∧ (initial.track calls).lossRateEma ≤ 1 :=
      LinkMetricTracker.lossRateEma_mem h0 h1
    refine ⟨hloss, fun hlatency hsamples hrelay hcosts => ?_⟩
    have hrange : (initial.track calls).metrics.InRange :=
      ⟨LinkMetricTracker.latencyEma_nonneg hlatency hsamples, hloss.1,
        LinkMetricTracker.relayCost_nonneg hrelay hcosts⟩
    exact hrange.cost_nonneg

/-- Measurements that are at least as bad never make a link cheaper. -/
theorem worse_never_cheaper {initial initial' : LinkMetrics} {calls calls' : List TrackerCall}
    (hinitial : initial.Worse initial') (hcalls : List.Forall₂ TrackerCall.Worse calls calls') :
    (initial.track calls).cost ≤ (initial'.track calls').cost := by
  have hnew : (LinkMetricTracker.new initial).metrics.Worse (LinkMetricTracker.new initial').metrics :=
    hinitial
  exact (applyAll_worse hcalls hnew).cost_le

/-- A loss rate above the clamp, and a bandwidth below the floor. -/
theorem worse_never_cheaper_clamped :
    (LinkMetrics.default.track [.record (.lossRate 2), .record (.bandwidth 50), .setRelayCost 1]).cost ≤
      (LinkMetrics.default.track [.record (.lossRate 3), .record (.bandwidth (-10)), .setRelayCost 2]).cost := by
  apply worse_never_cheaper
  · constructor <;> norm_num [LinkMetrics.default]
  · refine .cons (.lossRate ?_) (.cons (.bandwidth ?_) (.cons (.relayCost ?_) .nil)) <;> norm_num

end OmniMesh.Routing

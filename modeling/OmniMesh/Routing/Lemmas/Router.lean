import OmniMesh.Routing.Lemmas.Metrics
import OmniMesh.Routing.Router

/-!
# The links of a router
-/

namespace OmniMesh.Routing
open OmniMesh.Core

/-! ## What a call writes -/

namespace RouteGraph

variable {g : RouteGraph} {a b u v : PeerId} {m : LinkMetrics}

theorem getLink_eq_lookup : g.getLink u v = (g.neighbours u).lookup v := by
  unfold getLink neighbours
  cases g.edges.lookup u with
  | none => rfl
  | some links => rfl

theorem neighbours_addLink_self :
    (g.addLink a b m).neighbours a = (g.neighbours a).insert b m := by
  rw [neighbours, addLink, AList.lookup_insert]
  rfl

theorem neighbours_addLink_of_ne (h : u ≠ a) : (g.addLink a b m).neighbours u = g.neighbours u := by
  rw [neighbours, addLink, AList.lookup_insert_ne h]
  rfl

@[simp] theorem getLink_addLink :
    (g.addLink a b m).getLink u v = if u = a ∧ v = b then some m else g.getLink u v := by
  rw [getLink_eq_lookup, getLink_eq_lookup]
  by_cases hu : u = a
  · subst hu
    rw [neighbours_addLink_self]
    by_cases hv : v = b
    · subst hv
      rw [AList.lookup_insert, if_pos ⟨rfl, rfl⟩]
    · rw [AList.lookup_insert_ne hv, if_neg fun h => hv h.2]
  · rw [neighbours_addLink_of_ne hu, if_neg fun h => hu h.1]

end RouteGraph

namespace Router

variable {r s : Router} {peer : PeerId} {method : LinkMetricTracker → LinkMetricTracker}

/-- `update_graph_link` always finds the tracker that was just written. -/
theorem record_eq : r.record peer method =
    { r with
      localTrackers := r.localTrackers.insert peer (method (r.tracker peer))
      graph := r.graph.addLink r.localPeerId peer (method (r.tracker peer)).metrics } := by
  unfold record updateGraphLink
  simp only [AList.lookup_insert]

/-! ## Costs that are not negative -/

variable {call : Call}

/-- Latency samples are not negative, and gossip carries metrics in range. -/
def InRange (_ : Router) : Call → Prop
  | .recordLatency _ latencyMs => 0 ≤ latencyMs
  | .recordBandwidth _ _ => True
  | .recordLossRate _ _ => True
  | .processLinkStateUpdate update => update.metrics.InRange

structure Nonneg (r : Router) : Prop where
  trackers : ∀ p t, r.localTrackers.lookup p = some t → t.metrics.InRange
  links : ∀ u v m, r.graph.getLink u v = some m → 0 ≤ m.cost

theorem new_nonneg (localPeerId : PeerId) : (new localPeerId).Nonneg where
  trackers _ _ h := by cases h
  links _ _ _ h := by cases h

theorem Nonneg.addLink (h : r.Nonneg) {u v m} (hm : 0 ≤ LinkMetrics.cost m) {u' v' m'}
    (hl : (r.graph.addLink u v m).getLink u' v' = some m') : 0 ≤ m'.cost := by
  rw [RouteGraph.getLink_addLink] at hl
  split at hl
  · cases hl
    exact hm
  · exact h.links u' v' m' hl

theorem Nonneg.tracker (h : r.Nonneg) (peer : PeerId) : (r.tracker peer).metrics.InRange := by
  unfold Router.tracker
  cases hl : r.localTrackers.lookup peer with
  | none => exact ⟨by decide, by decide, by decide⟩
  | some t => exact h.trackers peer t hl

theorem Nonneg.record (h : r.Nonneg)
    (hmethod : ∀ t : LinkMetricTracker, t.metrics.InRange → (method t).metrics.InRange) :
    (r.record peer method).Nonneg := by
  have hnew := hmethod _ (h.tracker peer)
  rw [record_eq]
  refine ⟨fun p t hp => ?_, fun u v m hm => h.addLink hnew.cost_nonneg hm⟩
  by_cases heq : p = peer
  · subst heq
    simp only [AList.lookup_insert] at hp
    cases hp
    exact hnew
  · simp only [AList.lookup_insert_ne heq] at hp
    exact h.trackers p t hp

theorem Nonneg.step (h : r.Nonneg) (hc : r.InRange call) (hs : r.step call = some s) : s.Nonneg := by
  cases call with
  | recordLatency peer latencyMs =>
      cases hs
      exact h.record fun t ht => ⟨ema_nonneg hc ht.latencyMs, ht.lossRate, ht.relayCost⟩
  | recordBandwidth peer bandwidthKbps =>
      cases hs
      exact h.record fun t ht => ⟨ht.latencyMs, ht.lossRate, ht.relayCost⟩
  | recordLossRate peer lossRate =>
      cases hs
      exact h.record fun t ht => ⟨ht.latencyMs, ema_nonneg (le_max_left ..) ht.lossRate, ht.relayCost⟩
  | processLinkStateUpdate update =>
      cases hs
      dsimp only [Router.processLinkStateUpdate]
      split
      · exact ⟨h.trackers, h.links⟩
      · exact ⟨h.trackers, fun u v m hm => h.addLink hc.cost_nonneg hm⟩

theorem run_nonneg {localPeerId : PeerId} {calls : List Call}
    (hm : Lts.Meets Router.step InRange (new localPeerId) calls)
    (hr : Lts.run Router.step (new localPeerId) calls = some r) : r.Nonneg :=
  Lts.Meets.invariant (fun _ _ _ h hc hs => h.step hc hs) (new_nonneg localPeerId) hm hr

end Router

end OmniMesh.Routing

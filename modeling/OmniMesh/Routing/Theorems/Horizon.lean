import OmniMesh.Core.Lemmas.Concrete
import OmniMesh.Routing.Lemmas.Horizon
import OmniMesh.Routing.Theorems

/-!
# How far a node can route
-/

namespace OmniMesh.Routing
open OmniMesh.Core LabelSearch

/-- A node finds routes to peers that are at most two sessions away, through its own session peers, and never
to any other peer. Once every node has ticked and all packets are delivered it finds one to each of them. -/
theorem routing_horizon (T : Topology) {acts : List LinkStateAct} {s : LinkStateMesh} {u : PeerId}
    (hmeasuring : Lts.Meets (LinkStateMesh.step T) (LinkStateMesh.Measuring T) .init acts)
    (hrun : Lts.run (LinkStateMesh.step T) .init acts = some s) :
    (∀ target path, (s.routers u).Returns target (some path) →
      T.Near u target ∧ ∀ x ∈ path.dropLast, x = u ∨ x ∈ T.sessions u) ∧
    (Lts.Meets (LinkStateMesh.step T) (LinkStateMesh.Tracking T) .init acts → s.Quiet T →
      (∀ v ∈ T.nodes, (s.generated v).length < 2 ^ 64) → u ∈ T.nodes →
      (∀ x v m, (s.routers u).graph.getLink x v = some m → m.cost < f64Max / 2) →
      ∀ target, T.Near u target → Lts.Ends ((s.routers u).graph.step target) (s.routers u).findRoute ∧
        ¬ (s.routers u).Returns target none) := by
  have hhop := LinkStateMesh.run_oneHop hrun
  have hmeasured := LinkStateMesh.run_measured hmeasuring hrun
  have hnonneg := hhop.nonneg hmeasured u
  refine ⟨fun target path hr => hhop.returns_near hmeasured hr, fun htracking hq hlt hu hbound target hnear => ?_⟩
  refine ⟨(s.routers u).findRoute_ends hnonneg target, fun hnone => ?_⟩
  have hvisited := LinkStateMesh.run_visited htracking hrun
  obtain ⟨d, hd, hdlt⟩ := hhop.walk_of_near hvisited hq hlt hu hnear hbound
  have hopt := hnone.optimal hnonneg
  rw [(hhop.routers u).id] at hopt
  exact absurd (hopt d hd) (not_le.mpr hdlt)

/-- What one latency sample of 20 ms makes of the default metrics. -/
def sampledLink : LinkMetrics := { LinkMetrics.default with latencyMs := LinkMetricTracker.ema 20 10 }

theorem sampledLink_cost : sampledLink.cost < f64Max / 2 := by
  have hcost : sampledLink.cost = 6 / 5 := by
    norm_num [sampledLink, LinkMetrics.cost, LinkMetrics.default, LinkMetricTracker.ema, emaAlpha]
  have hmax : 3 * 1 ≤ f64Max := mul_le_mul (by norm_num) (one_le_pow₀ (by norm_num)) zero_le_one (by norm_num)
  rw [hcost]
  linarith

theorem routing_horizon_line :
    ∃ s, Lts.run (LinkStateMesh.step line) .init lineTicks = some s ∧ line.Near (samplePeer 0) (samplePeer 2) ∧
      samplePeer 2 ∉ line.sessions (samplePeer 0) ∧ ¬ (s.routers (samplePeer 0)).Returns (samplePeer 2) none := by
  have hmeasuring : Lts.Meets (LinkStateMesh.step line) (LinkStateMesh.Measuring line) .init lineTicks := by
    refine .cons ?_ rfl <| .cons ?_ rfl <| .cons ?_ rfl <| .cons ?_ rfl <|
      .cons trivial rfl <| .cons trivial rfl <| .cons trivial rfl <| .cons trivial rfl <| .cons trivial rfl <|
      .cons trivial rfl <| .cons trivial rfl <| .cons trivial rfl <| .cons trivial rfl <| .cons trivial rfl <|
      .cons trivial rfl <| .cons trivial rfl <| .cons trivial rfl trivial
    all_goals exact ⟨by decide, by decide⟩
  have htracking : Lts.Meets (LinkStateMesh.step line) (LinkStateMesh.Tracking line) .init lineTicks := by
    refine .cons trivial rfl <| .cons trivial rfl <| .cons trivial rfl <| .cons trivial rfl <|
      .cons ?_ rfl <| .cons trivial rfl <| .cons ?_ rfl <| .cons trivial rfl <| .cons trivial rfl <|
      .cons ?_ rfl <| .cons trivial rfl <| .cons trivial rfl <| .cons trivial rfl <| .cons trivial rfl <|
      .cons trivial rfl <| .cons trivial rfl <| .cons trivial rfl trivial
    all_goals decide
  have hrun : ∃ s, Lts.run (LinkStateMesh.step line) .init lineTicks = some s ∧ s.Quiet line ∧
      (∀ v ∈ line.nodes, (s.generated v).length < 2 ^ 64) ∧
      (s.routers (samplePeer 0)).graph = ((RouteGraph.new.addLink (samplePeer 0) (samplePeer 1) sampledLink).addLink
        (samplePeer 1) (samplePeer 0) sampledLink).addLink (samplePeer 1) (samplePeer 2) sampledLink :=
    ⟨_, rfl, ⟨by decide, rfl⟩, by decide, rfl⟩
  obtain ⟨s, hs, hq, hlt, hgraph⟩ := hrun
  have hnear : line.Near (samplePeer 0) (samplePeer 2) := .inr (.inr ⟨samplePeer 1, by decide, by decide⟩)
  have hbound : ∀ x v m, (s.routers (samplePeer 0)).graph.getLink x v = some m → m.cost < f64Max / 2 := by
    intro x v m hl
    have hm : m = sampledLink := by
      have hnew : RouteGraph.new.getLink x v = none := rfl
      rw [hgraph, RouteGraph.getLink_addLink, RouteGraph.getLink_addLink, RouteGraph.getLink_addLink, hnew] at hl
      grind
    exact hm ▸ sampledLink_cost
  have hroutes := (routing_horizon line (u := samplePeer 0) hmeasuring hs).2 htracking hq hlt (by decide) hbound
  exact ⟨s, hs, hnear, by decide, (hroutes (samplePeer 2) hnear).2⟩

end OmniMesh.Routing

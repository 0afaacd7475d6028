import OmniMesh.Core.Lemmas.Concrete
import OmniMesh.Routing.Lemmas.Edit

/-!
# Editing the route graph
-/

namespace OmniMesh.Routing
open OmniMesh.Core LabelSearch

/-- After any edits the graph holds for each pair of peers what its last edit has left, and no source without
a link. -/
theorem graph_shows_last_edit (edits : List GraphEdit) :
    (∀ u v, (edits.foldl GraphEdit.apply .new).getLink u v =
      (edits.reverse.find? fun e => e.link = (u, v)).bind GraphEdit.metrics) ∧
    (edits.foldl GraphEdit.apply .new).Trim := by
  induction edits using List.reverseRecOn with
  | nil => exact ⟨fun _ _ => rfl, RouteGraph.new_trim⟩
  | append_singleton edits e ih =>
      obtain ⟨hlast, htrim⟩ := ih
      simp only [List.foldl_append, List.foldl_cons, List.foldl_nil, List.reverse_append, List.reverse_singleton,
        List.singleton_append, List.find?_cons]
      cases e with
      | add a b m =>
          refine ⟨fun u v => ?_, htrim.addLink⟩
          rw [GraphEdit.apply, RouteGraph.getLink_addLink, hlast]
          by_cases h : u = a ∧ v = b
          · simp [h, GraphEdit.link, GraphEdit.metrics]
          · have h' : ¬ (a = u ∧ b = v) := fun he => h ⟨he.1.symm, he.2.symm⟩
            simp [h, h', GraphEdit.link]
      | remove a b =>
          refine ⟨fun u v => ?_, htrim.removeLink⟩
          rw [GraphEdit.apply, RouteGraph.getLink_removeLink, hlast]
          by_cases h : u = a ∧ v = b
          · simp [h, GraphEdit.link, GraphEdit.metrics]
          · have h' : ¬ (a = u ∧ b = v) := fun he => h ⟨he.1.symm, he.2.symm⟩
            simp [h, h', GraphEdit.link]

/-- Without one of its links a graph has no new and no cheaper routes, and a route that does not use the link
is replaced by one of the same cost. -/
theorem removeLink_never_cheaper {g : RouteGraph} (hg : g.Nonneg) {a b start target : PeerId}
    {route route' : Option (List PeerId)} (h : g.Finds start target route)
    (h' : (g.removeLink a b).Finds start target route') :
    (∀ path', route' = some path' → ∃ path w w', route = some path ∧ g.routeCost path = some w ∧
      (g.removeLink a b).routeCost path' = some w' ∧ w ≤ w') ∧
    (∀ path, route = some path → ¬ [a, b] <:+: path → ∃ path' w, route' = some path' ∧
      g.routeCost path = some w ∧ (g.removeLink a b).routeCost path' = some w) := by
  have hopt := h.optimal hg
  have hopt' := h'.optimal hg.removeLink
  constructor
  · rintro path' rfl
    obtain ⟨rest', w', rfl, hlast', hcost', -, hlt'⟩ := hopt'
    have hroute : Route g.links start target w' :=
      RouteGraph.route_of_routeCost (RouteGraph.routeCost_of_removeLink hcost') hlast'
    cases route with
    | none => exact absurd (hopt w' hroute) (not_le.mpr hlt')
    | some path =>
        obtain ⟨rest, w, rfl, -, hcost, hdist, -⟩ := hopt
        exact ⟨_, w, w', rfl, hcost, hcost', hdist.2 hroute⟩
  · rintro path rfl hnot
    obtain ⟨rest, w, rfl, hlast, hcost, hdist, hlt⟩ := hopt
    have hroute' : Route (g.removeLink a b).links start target w :=
      RouteGraph.route_of_routeCost (RouteGraph.routeCost_removeLink hcost hnot) hlast
    cases route' with
    | none => exact absurd (hopt' w hroute') (not_le.mpr hlt)
    | some path' =>
        obtain ⟨rest', w', rfl, hlast', hcost', hdist', -⟩ := hopt'
        have hroute : Route g.links start target w' :=
          RouteGraph.route_of_routeCost (RouteGraph.routeCost_of_removeLink hcost') hlast'
        have heq : w' = w := le_antisymm (hdist'.2 hroute') (hdist.2 hroute)
        exact ⟨_, w, rfl, hcost, heq ▸ hcost'⟩

/-- A direct way, and a way round that is cheaper. -/
def detour : RouteGraph :=
  ((RouteGraph.new.addLink (samplePeer 0) (samplePeer 2) ⟨50, 10000, 0, 0⟩).addLink (samplePeer 0) (samplePeer 1)
    ⟨10, 10000, 0, 0⟩).addLink (samplePeer 1) (samplePeer 2) ⟨20, 10000, 0, 0⟩

theorem detour_nonneg : detour.Nonneg := by
  intro u v m hl
  have hnew : RouteGraph.new.getLink u v = none := rfl
  rw [detour, RouteGraph.getLink_addLink, RouteGraph.getLink_addLink, RouteGraph.getLink_addLink, hnew] at hl
  have hrange : m.InRange := by
    split_ifs at hl <;> · cases hl; exact ⟨by decide, by decide, by decide⟩
  exact hrange.cost_nonneg

theorem removeLink_never_cheaper_detour :
    ∃ path path' w w', detour.Finds (samplePeer 0) (samplePeer 2) (some path) ∧
      (detour.removeLink (samplePeer 0) (samplePeer 1)).Finds (samplePeer 0) (samplePeer 2) (some path') ∧
      detour.routeCost path = some w ∧
      (detour.removeLink (samplePeer 0) (samplePeer 1)).routeCost path' = some w' ∧ w ≤ w' := by
  have hcost : ∀ g : RouteGraph, g.getLink (samplePeer 0) (samplePeer 2) = some ⟨50, 10000, 0, 0⟩ →
      g.WalkCost (samplePeer 0) (samplePeer 2) 5 := by
    intro g hl
    refine ⟨[samplePeer 0, samplePeer 2], rfl, rfl, ?_⟩
    simp only [RouteGraph.routeCost, hl]
    norm_num [LinkMetrics.cost]
  have hlt : (5 : ℚ) < f64Max := by
    have hmax : 6 * 1 ≤ f64Max := mul_le_mul (by norm_num) (one_le_pow₀ (by norm_num)) zero_le_one (by norm_num)
    linarith
  obtain ⟨path, hpath⟩ := RouteGraph.exists_finds detour_nonneg (hcost detour rfl) hlt
  have hkept : (detour.removeLink (samplePeer 0) (samplePeer 1)).getLink (samplePeer 0) (samplePeer 2) =
      some ⟨50, 10000, 0, 0⟩ := rfl
  obtain ⟨path', hpath'⟩ := RouteGraph.exists_finds detour_nonneg.removeLink (hcost _ hkept) hlt
  obtain ⟨p, w, w', hp, hw, hw', hle⟩ := (removeLink_never_cheaper detour_nonneg hpath hpath').1 path' rfl
  cases hp
  exact ⟨path, path', w, w', hpath, hpath', hw, hw', hle⟩

end OmniMesh.Routing

import Mathlib.Data.Set.Card
import OmniMesh.Routing.Lemmas.Shortest

/-!
# Forwarding follows a shortest route

With every hop the distance to the target shrinks by the cost of the link taken, whichever shortest
route each router has computed.
-/

namespace OmniMesh.Routing
open OmniMesh.Core

/-! ## One hop -/

namespace Router

variable {r : Router} {target hop : PeerId} {route : Option (List PeerId)} {d : ℚ}

theorem nextHop_cons_cons (u v : PeerId) (rest : List PeerId) :
    nextHop (some (u :: v :: rest)) = some v := by
  simp [nextHop]

/-- The next hop is the first one of a shortest route. -/
theorem HopsTo.distance (hg : r.graph.Nonneg) (h : r.HopsTo target hop) :
    ∃ m d, r.graph.getLink r.localPeerId hop = some m ∧
      Distance r.graph.links r.localPeerId target (m.cost + d) ∧
      Distance r.graph.links hop target d := by
  obtain ⟨route, hr, hhop⟩ := h
  have hopt := hr.optimal hg
  cases route with
  | none => cases hhop
  | some path =>
      obtain ⟨rest, d, rfl, hlast, hcost, hdist, -⟩ := hopt
      cases rest with
      | nil => cases hhop
      | cons v rest =>
          rw [nextHop_cons_cons] at hhop
          cases hhop
          obtain ⟨m, w, hm, hw, rfl⟩ := RouteGraph.routeCost_cons_cons hcost
          have hroute := RouteGraph.route_of_routeCost hw hlast
          exact ⟨m, w, hm, hdist, hdist.tail (RouteGraph.mem_links.mpr ⟨m, hm, rfl⟩) hroute⟩

theorem Returns.exists_hop (hg : r.graph.Nonneg) (h : r.Returns target route)
    (hd : Distance r.graph.links r.localPeerId target d) (hlt : d < f64Max)
    (hne : r.localPeerId ≠ target) : ∃ hop, nextHop route = some hop := by
  have hopt := h.optimal hg
  cases route with
  | none => exact absurd (hopt d hd.1) (not_le.mpr hlt)
  | some path =>
      obtain ⟨rest, -, rfl, hlast, -⟩ := hopt
      cases rest with
      | nil => exact absurd (Option.some.inj hlast) hne
      | cons v rest => exact ⟨v, nextHop_cons_cons ..⟩

theorem findRoute_ends (hg : r.graph.Nonneg) (target : PeerId) :
    Lts.Ends (r.graph.step target) r.findRoute :=
  ends_of_nonneg hg r.localPeerId target

theorem exists_returns (hg : r.graph.Nonneg) (target : PeerId) : ∃ route, r.Returns target route := by
  obtain ⟨choices, p, hr, route, rfl⟩ :=
    Lts.Ends.exists_run RouteGraph.step_progress (r.findRoute_ends hg target)
  exact ⟨route, choices, hr⟩

theorem exists_returns_some (hg : r.graph.Nonneg) (hroute : Route r.graph.links r.localPeerId target d)
    (hlt : d < f64Max) : ∃ path, r.Returns target (some path) := by
  obtain ⟨route, hr⟩ := r.exists_returns hg target
  cases route with
  | none => exact absurd (hr.optimal hg d hroute) (not_le.mpr hlt)
  | some path => exact ⟨path, hr⟩

end Router

/-! ## Whole journeys -/

namespace Mesh

variable {M : Mesh} {r r' : Router} {start target u v : PeerId} {d : ℚ} {visited trace : List PeerId}

theorem nonneg (hr : r ∈ M.routers) : r.graph.Nonneg :=
  fun u v m hm => (M.positive r hr u v m hm).le

theorem distance_congr (hr : r ∈ M.routers) (hr' : r' ∈ M.routers) (h : Distance r.graph.links u v d) :
    Distance r'.graph.links u v d := by
  refine h.congr fun u l => ?_
  rw [RouteGraph.mem_links, RouteGraph.mem_links, M.agree r hr r' hr']

/-- What has been paid and what is left, on the way to a target at distance `d`. -/
structure Descends (M : Mesh) (g : RouteGraph) (target : PeerId) (d : ℚ) (visited : List PeerId)
    (u : PeerId) : Prop where
  nodup : (visited ++ [u]).Nodup
  cost : ∃ w d', g.routeCost (visited ++ [u]) = some w ∧ Distance g.links u target d' ∧ w + d' = d ∧
    ∀ v ∈ visited, ∃ dv, Distance g.links v target dv ∧ d' < dv
  routers : ∀ v ∈ visited, ∃ r ∈ M.routers, r.localPeerId = v

theorem Descends.move (hr : r ∈ M.routers) (hr' : r' ∈ M.routers)
    (h : M.Descends r.graph target d visited r'.localPeerId) (hhop : r'.HopsTo target v) :
    M.Descends r.graph target d (visited ++ [r'.localPeerId]) v := by
  obtain ⟨w, d', hw, hd', hsum, habove⟩ := h.cost
  obtain ⟨m, d'', hm, hfrom, hto⟩ := hhop.distance (nonneg hr')
  have hpos := M.positive r' hr' _ _ m hm
  rw [M.agree r' hr' r hr] at hm
  obtain rfl := hd'.unique (distance_congr hr' hr hfrom)
  have hlt : d'' < m.cost + d'' := lt_add_of_pos_left d'' hpos
  have habove' : ∀ x ∈ visited ++ [r'.localPeerId], ∃ dx, Distance r.graph.links x target dx ∧ d'' < dx := by
    intro x hx
    rcases List.mem_append.mp hx with hx | hx
    · obtain ⟨dx, hdx, hgt⟩ := habove x hx
      exact ⟨dx, hdx, hlt.trans hgt⟩
    · rw [List.mem_singleton.mp hx]
      exact ⟨_, hd', hlt⟩
  have hnot : v ∉ visited ++ [r'.localPeerId] := by
    intro hv
    obtain ⟨dv, hdv, hgt⟩ := habove' v hv
    exact absurd (hdv.unique (distance_congr hr' hr hto)) hgt.ne'
  refine ⟨?_, ⟨w + m.cost, d'', ?_, distance_congr hr' hr hto, ?_, habove'⟩, fun x hx => ?_⟩
  · exact List.nodup_append.mpr ⟨h.nodup, List.nodup_singleton v, fun a ha b hb => by
      rw [List.mem_singleton.mp hb]
      exact fun he => hnot (he ▸ ha)⟩
  · rw [List.append_assoc]
    exact RouteGraph.routeCost_concat hw hm
  · rw [add_assoc]
    exact hsum
  · rcases List.mem_append.mp hx with hx | hx
    · exact h.routers x hx
    · exact ⟨r', hr', (List.mem_singleton.mp hx).symm⟩

theorem Forwards.descends (hr : r ∈ M.routers) (hd : Distance r.graph.links start target d)
    (h : M.Forwards target start trace) :
    ∃ visited u, trace = visited ++ [u] ∧ M.Descends r.graph target d visited u := by
  induction h with
  | here =>
      refine ⟨[], start, rfl, List.nodup_singleton _, ⟨0, d, rfl, hd, zero_add d, ?_⟩, ?_⟩
      · simp
      · simp
  | @move visited r' hop _ hr' hhop ih =>
      obtain ⟨visited', u, heq, hdesc⟩ := ih
      obtain ⟨rfl, hu⟩ := List.append_inj' heq rfl
      cases hu
      exact ⟨visited ++ [r'.localPeerId], hop, by simp, hdesc.move hr hr' hhop⟩

theorem Descends.length_le (h : M.Descends r.graph target d visited u) :
    (visited ++ [u]).length ≤ M.routers.ncard + 1 := by
  have hnodup := (List.nodup_append.mp h.nodup).1
  have hsub : (visited.toFinset : Set PeerId) ⊆ Router.localPeerId '' M.routers := by
    intro v hv
    exact h.routers v (List.mem_toFinset.mp hv)
  have hcard := Set.ncard_le_ncard hsub (M.finite.image _)
  rw [Set.ncard_coe_finset, List.toFinset_card_of_nodup hnodup] at hcard
  rw [List.length_append]
  exact Nat.succ_le_succ (hcard.trans (Set.ncard_image_le M.finite))

/-- A router on the way finds a next hop, whatever its call of `find_route` returns. -/
theorem Descends.exists_hop (hr : r ∈ M.routers) (hlt : d < f64Max) (hr' : r' ∈ M.routers)
    (h : M.Descends r.graph target d visited r'.localPeerId) (hne : r'.localPeerId ≠ target)
    {route : Option (List PeerId)} (hroute : r'.Returns target route) :
    ∃ hop, Router.nextHop route = some hop := by
  obtain ⟨w, d', hw, hd', rfl, -⟩ := h.cost
  have hle : d' ≤ w + d' := le_add_of_nonneg_left ((nonneg hr).routeCost hw)
  exact hroute.exists_hop (nonneg hr') (distance_congr hr hr' hd') (hle.trans_lt hlt) hne

theorem Descends.exists_router (hr : r ∈ M.routers) (hclosed : M.Closed target)
    (h : M.Descends r.graph target d visited u) (hne : u ≠ target) :
    ∃ r' ∈ M.routers, r'.localPeerId = u := by
  obtain ⟨-, d', -, hd', -, -⟩ := h.cost
  cases hd'.1 with
  | nil => exact absurd rfl hne
  | cons hl _ =>
      obtain ⟨m, hm, -⟩ := RouteGraph.mem_links.mp hl
      exact hclosed r hr u _ m hm hne

theorem Forwards.exists_reach (hr : r ∈ M.routers) (hd : Distance r.graph.links start target d)
    (hlt : d < f64Max) (hclosed : M.Closed target) (h : M.Forwards target start trace) :
    ∃ more, M.Forwards target start (trace ++ more) ∧ (trace ++ more).getLast? = some target := by
  -- Every move uses up one of the routers.
  induction hn : M.routers.ncard + 1 - trace.length using Nat.strong_induction_on generalizing trace with
  | _ n ih =>
      obtain ⟨visited, u, rfl, hdesc⟩ := h.descends hr hd
      by_cases hne : u = target
      · exact ⟨[], by simpa using h, by simp [hne]⟩
      · obtain ⟨r', hr', rfl⟩ := hdesc.exists_router hr hclosed hne
        obtain ⟨route, hroute⟩ := r'.exists_returns (nonneg hr') target
        obtain ⟨hop, hhop⟩ := hdesc.exists_hop hr hlt hr' hne hroute
        have hmove := Forwards.move h hr' ⟨route, hroute, hhop⟩
        have hlength := (hdesc.move hr hr' ⟨route, hroute, hhop⟩).length_le
        simp only [List.length_append, List.length_cons, List.length_nil] at hn hlength
        obtain ⟨more, hmore, hlast⟩ := ih _ (by
          simp only [List.length_append, List.length_cons, List.length_nil]
          omega) hmove rfl
        refine ⟨hop :: more, ?_, ?_⟩
        · simpa using hmore
        · simpa using hlast

end Mesh

end OmniMesh.Routing

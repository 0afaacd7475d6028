import OmniMesh.Lib.Shortest
import OmniMesh.Routing.Forward
import OmniMesh.Routing.Lemmas.Route

/-!
# Computed routes are shortest
-/

namespace OmniMesh.Routing
open OmniMesh.Core LabelSearch

namespace RouteGraph

variable {g : RouteGraph} {u v : PeerId} {w : ℚ} {p : List PeerId}

theorem routeCost_cons {m} (hl : g.getLink u v = some m) (hp : g.routeCost (v :: p) = some w) :
    g.routeCost (u :: v :: p) = some (m.cost + w) := by
  simp only [routeCost, hl, hp]

theorem routeCost_cons_cons (h : g.routeCost (u :: v :: p) = some w) :
    ∃ m w', g.getLink u v = some m ∧ g.routeCost (v :: p) = some w' ∧ w = m.cost + w' := by
  simp only [routeCost] at h
  split at h
  · rename_i m w' hm hw'
    cases h
    exact ⟨m, w', hm, hw', rfl⟩
  · cases h

theorem routeCost_concat {m} (hp : g.routeCost (p ++ [u]) = some w) (hl : g.getLink u v = some m) :
    g.routeCost (p ++ [u, v]) = some (w + m.cost) := by
  induction p generalizing w with
  | nil =>
      cases hp
      simp [routeCost, hl]
  | cons a p ih =>
      cases p with
      | nil =>
          obtain ⟨m', w', hm', hw', rfl⟩ := routeCost_cons_cons hp
          rw [add_assoc]
          exact routeCost_cons hm' (ih hw')
      | cons b p =>
          obtain ⟨m', w', hm', hw', rfl⟩ := routeCost_cons_cons hp
          rw [add_assoc]
          exact routeCost_cons hm' (ih hw')

theorem route_of_routeCost (h : g.routeCost (u :: p) = some w) (hlast : (u :: p).getLast? = some v) :
    Route g.links u v w := by
  induction p generalizing u w with
  | nil =>
      cases h
      cases hlast
      exact .nil
  | cons a p ih =>
      obtain ⟨m, w', hm, hw', rfl⟩ := routeCost_cons_cons h
      exact .cons (mem_links.mpr ⟨m, hm, rfl⟩) (ih hw' hlast)

theorem WalkCost.route (h : g.WalkCost u v w) : Route g.links u v w := by
  obtain ⟨walk, hhead, hlast, hcost⟩ := h
  cases walk with
  | nil => cases hhead
  | cons a p =>
      cases hhead
      exact route_of_routeCost hcost hlast

theorem isChain_of_routeCost (h : g.routeCost p = some w) :
    p.IsChain fun u v => (g.getLink u v).isSome := by
  cases p with
  | nil => exact .nil
  | cons u p =>
      induction p generalizing u w with
      | nil => exact .singleton u
      | cons v p ih =>
          obtain ⟨m, w', hm, hw', -⟩ := routeCost_cons_cons h
          exact .cons_cons (Option.isSome_of_eq_some hm) (ih v hw')

def Nonneg (g : RouteGraph) : Prop := ∀ u v m, g.getLink u v = some m → 0 ≤ m.cost

theorem Nonneg.routeCost (h : g.Nonneg) (hw : g.routeCost p = some w) : 0 ≤ w := by
  cases p with
  | nil => cases hw
  | cons u p =>
      induction p generalizing u w with
      | nil =>
          cases hw
          exact le_rfl
      | cons v p ih =>
          obtain ⟨m, w', hm, hw', rfl⟩ := routeCost_cons_cons hw
          exact add_nonneg (h u v m hm) (ih v hw')

theorem Nonneg.links (h : g.Nonneg) : ∀ u, ∀ l ∈ g.links u, 0 ≤ l.2 := by
  intro u l hl
  obtain ⟨m, hm, hc⟩ := mem_links.mp hl
  exact hc ▸ h u l.1 m hm

end RouteGraph

theorem Search.visit_improves (s : Search) (entry : SearchState)
    (order : List (Σ _ : PeerId, LinkMetrics)) :
    Improves f64Max { s.labels with heap := s.labels.heap.erase (entry.cost, entry.node) }
      (s.visit entry order).labels := by
  rw [← labels_erase]
  have hfold : Improves f64Max (labels { s with heap := s.heap.erase entry })
      (order.foldl (relax entry.node entry.cost) { s with heap := s.heap.erase entry }).labels := by
    rw [labels_foldl]
    exact foldl_improves _
  simp only [visit]
  split
  · split
    · exact .refl
    · exact hfold
  · exact hfold

variable {g : RouteGraph} {start target : PeerId} {p q : Phase}

/-- A label of the target always has its entry in the heap. -/
def Search.TargetOpen (s : Search) (target : PeerId) : Prop :=
  ∀ x, s.labels.dist target = some x → (x, target) ∈ s.labels.heap

theorem Search.TargetOpen.visit {s : Search} {entry order} (h : s.TargetOpen target)
    (hne : entry.node ≠ target) : (s.visit entry order).TargetOpen target := by
  intro x hx
  have himp := s.visit_improves entry order
  rcases himp.dist target with hsame | ⟨y, hy, -, hmem⟩
  · rw [hsame] at hx
    refine himp.heap ((List.mem_erase_of_ne fun he => ?_).mpr (h x hx))
    exact hne (congrArg Prod.snd he).symm
  · rw [hx] at hy
    cases hy
    exact hmem

/-- What the search has established about shortest routes. -/
def Phase.Optimal (g : RouteGraph) (start target : PeerId) : Phase → Prop
  | .searching s => Scheduled g.links f64Max start s.labels ∧
      Settling g.links f64Max start s.labels ∧ Rooted start s.labels ∧ s.TargetOpen target
  | .walking predecessors current path => ∃ (s : Search) (rest : List PeerId) (d x w : ℚ),
      s.predecessors = predecessors ∧ Settling g.links f64Max start s.labels ∧ Rooted start s.labels ∧
      Distance g.links start target d ∧ d < f64Max ∧ path.reverse = current :: rest ∧
      (current :: rest).getLast? = some target ∧ s.labels.dist current = some x ∧
      g.routeCost (current :: rest) = some w ∧ x + w ≤ d
  | .done (some path) => ∃ rest d, path = start :: rest ∧ path.getLast? = some target ∧
      g.routeCost path = some d ∧ Distance g.links start target d ∧ d < f64Max
  | .done none => ∀ w, Route g.links start target w → f64Max ≤ w

theorem optimal_init : Phase.Optimal g start target (.searching (.init start)) := by
  simp only [Phase.Optimal, Search.TargetOpen, Search.labels_init]
  refine ⟨init_scheduled, init_settling, init_rooted, fun x hx => ?_⟩
  by_cases ht : target = start
  · subst ht
    rw [init_dist_self] at hx
    cases hx
    exact List.mem_cons_self
  · rw [init_dist_of_ne ht] at hx
    cases hx

/-- The entry that ends the heap loop is a cheapest one. -/
theorem RouteGraph.step_found {s : Search} {c predecessors current path}
    (h : g.step target (.searching s) c = some (.walking predecessors current path)) :
    ∃ entry ∈ s.heap, (∀ e ∈ s.heap, entry.cost ≤ e.cost) ∧ entry.node = target ∧
      predecessors = s.predecessors ∧ current = target ∧ path = [target] := by
  cases c with
  | pop entry order =>
      simp only [step] at h
      split at h
      · rename_i hpop
        split at h
        · rename_i hnode
          cases h
          exact ⟨entry, hpop.1, hpop.2.1, hnode, rfl, hnode, by rw [hnode]⟩
        · cases h
      · cases h
  | exhausted =>
      simp only [step] at h
      split at h <;> cases h
  | back => cases h

theorem optimal_found {s : Search} {entry : SearchState} (hg : g.Nonneg)
    (h : Phase.Optimal g start target (.searching s)) (hmem : entry ∈ s.heap)
    (hmin : ∀ e ∈ s.heap, entry.cost ≤ e.cost) (hnode : entry.node = target) :
    Phase.Optimal g start target (.walking s.predecessors target [target]) := by
  obtain ⟨hsch, hset, hroot, -⟩ := h
  obtain ⟨d, hd, hlt, hdist⟩ := hsch.distance hg.links hset f64Max_pos (Search.mem_labels_heap hmem)
    (Search.labels_min hmin)
  subst hnode
  exact ⟨s, [], d, d, 0, rfl, hset, hroot, hdist, hlt, rfl, rfl, hd, rfl, (add_zero d).le⟩

theorem optimal_exhausted {s : Search} (hg : g.Nonneg)
    (h : Phase.Optimal g start target (.searching s)) (hnil : s.heap = []) :
    Phase.Optimal g start target (.done none) := by
  obtain ⟨hsch, -, -, hopen⟩ := h
  have hempty : s.labels.heap = [] := by rw [Search.labels, hnil]; rfl
  intro w hw
  by_contra hlt
  obtain ⟨p, hp⟩ := hw.exists_walk hg.links (not_le.mp hlt)
  rcases hsch.label_or_entry hg.links hp with ⟨y, hy, -⟩ | ⟨e, he, -⟩
  · have hentry := hopen y hy
    rw [hempty] at hentry
    cases hentry
  · rw [hempty] at he
    cases he

/-- One link back along the predecessors. -/
theorem optimal_back {predecessors : Map PeerId PeerId} {current pred : PeerId} {path : List PeerId}
    (h : Phase.Optimal g start target (.walking predecessors current path))
    (hpred : predecessors.lookup current = some pred) :
    Phase.Optimal g start target (.walking predecessors pred (path ++ [pred])) := by
  obtain ⟨s, rest, d, x, w, rfl, hset, hroot, hdist, hlt, hrev, hlast, hx, hw, hle⟩ := h
  obtain ⟨c, x', y, hl, hx', hy, hle'⟩ := hset.pred pred current hpred
  obtain ⟨m, hm, rfl⟩ := RouteGraph.mem_links.mp hl
  rw [hx] at hy
  cases hy
  refine ⟨s, current :: rest, d, x', m.cost + w, rfl, hset, hroot, hdist, hlt, ?_, hlast, hx',
    RouteGraph.routeCost_cons hm hw, ?_⟩
  · rw [List.reverse_concat, hrev]
  · rw [← add_assoc]
    exact (add_le_add hle' le_rfl).trans hle

theorem optimal_arrived {predecessors : Map PeerId PeerId} {current : PeerId} {path : List PeerId}
    (h : Phase.Optimal g start target (.walking predecessors current path))
    (hpred : predecessors.lookup current = none) :
    Phase.Optimal g start target (.done (some path.reverse)) := by
  obtain ⟨s, rest, d, x, w, rfl, hset, hroot, hdist, hlt, hrev, hlast, hx, hw, hle⟩ := h
  have hstart : current = start := by
    refine (hroot.tree current x hx).resolve_right ?_
    rintro ⟨u, hu⟩
    cases hpred.symm.trans hu
  subst hstart
  rw [hroot.label] at hx
  cases hx
  rw [zero_add] at hle
  have heq : w = d := le_antisymm hle (hdist.2 (RouteGraph.route_of_routeCost hw hlast))
  subst heq
  rw [hrev]
  exact ⟨rest, w, rfl, hlast, hw, hdist, hlt⟩

theorem Phase.Optimal.step {c : Choice} (hg : g.Nonneg) (h : p.Optimal g start target)
    (hs : g.step target p c = some q) : q.Optimal g start target := by
  have hno : ¬ g.NegativeCycle start := not_negCycle_of_nonneg hg.links
  cases RouteGraph.step_turn hs with
  | found _ _ =>
      obtain ⟨entry, hmem, hmin, hnode, -, hcurrent, hpath⟩ := RouteGraph.step_found hs
      rw [hcurrent]
      exact optimal_found hg h hmem hmin hnode
  | visit hmem hmin hperm hnode =>
      obtain ⟨hsch, hset, hroot, hopen⟩ := h
      have hstep := Search.labels_visit hmem hmin hperm
      exact ⟨hsch.step hstep, hset.step f64Max_pos hno hsch hstep, hroot.step hg.links hsch hset hstep,
        hopen.visit hnode⟩
  | exhausted hnil => exact optimal_exhausted hg h hnil
  | back hpred => exact optimal_back h hpred
  | arrived hpred => exact optimal_arrived h hpred

theorem ends_of_nonneg (hg : g.Nonneg) (start target : PeerId) :
    Lts.Ends (g.step target) (.searching (.init start)) :=
  ends_searching (not_negCycle_of_nonneg hg.links) sound_init

theorem run_sound (hg : g.Nonneg) {choices : List Choice}
    (hr : Lts.run (g.step target) (.searching (.init start)) choices = some p) : p.Sound g start :=
  Lts.run_invariant (I := Phase.Sound g start)
    (fun _ _ _ h hs => h.turn (not_negCycle_of_nonneg hg.links) (RouteGraph.step_turn hs)) sound_init hr

theorem run_optimal (hg : g.Nonneg) {choices : List Choice}
    (hr : Lts.run (g.step target) (.searching (.init start)) choices = some p) :
    p.Optimal g start target :=
  Lts.run_invariant (fun _ _ _ h hs => h.step hg hs) optimal_init hr

/-- What `find_route` returns is a shortest route, or there is none below the bound. -/
theorem Router.Returns.optimal {r : Router} {route : Option (List PeerId)} (hg : r.graph.Nonneg)
    (h : r.Returns target route) : Phase.Optimal r.graph r.localPeerId target (.done route) := by
  obtain ⟨choices, hr⟩ := h
  exact run_optimal hg hr

end OmniMesh.Routing

import OmniMesh.Routing.Lemmas.Search

/-!
# Route computation ends exactly without a negative cycle
-/

namespace OmniMesh.Routing
open OmniMesh.Core LabelSearch

variable {g : RouteGraph} {start target : PeerId} {p q : Phase} {c : Choice}

/-! ## The turns of the two loops -/

inductive RouteGraph.Turn (g : RouteGraph) (target : PeerId) : Phase → Phase → Prop
  | found {s entry} : entry ∈ s.heap → entry.node = target →
      Turn g target (.searching s) (.walking s.predecessors entry.node [entry.node])
  | visit {s entry order} : entry ∈ s.heap → (∀ e ∈ s.heap, entry.cost ≤ e.cost) →
      order.Perm (g.neighbours entry.node).entries → entry.node ≠ target →
      Turn g target (.searching s) (.searching (s.visit entry order))
  | exhausted {s} : s.heap = [] → Turn g target (.searching s) (.done none)
  | back {predecessors current path pred} : predecessors.lookup current = some pred →
      Turn g target (.walking predecessors current path) (.walking predecessors pred (path ++ [pred]))
  | arrived {predecessors current path} : predecessors.lookup current = none →
      Turn g target (.walking predecessors current path) (.done (some path.reverse))

theorem RouteGraph.step_turn (h : g.step target p c = some q) : g.Turn target p q := by
  unfold step at h
  split at h
  · split at h
    · rename_i hpop
      obtain ⟨hmem, hmin, hperm⟩ := hpop
      split at h
      · rename_i hnode
        cases h
        exact .found hmem hnode
      · rename_i hnode
        cases h
        exact .visit hmem hmin hperm hnode
    · cases h
  · split at h
    · rename_i hnil
      cases h
      exact .exhausted hnil
    · cases h
  · split at h
    · rename_i hpred
      cases h
      exact .back hpred
    · rename_i hpred
      cases h
      exact .arrived hpred
  · cases h

theorem RouteGraph.pop_enabled {s : Search} (hne : s.heap ≠ []) :
    ∃ c q, g.step target (.searching s) c = some q := by
  obtain ⟨e, he⟩ := List.exists_mem_of_ne_nil _ hne
  obtain ⟨entry, hmem, hmin⟩ :=
    s.heap.toFinset.exists_min_image SearchState.cost ⟨e, List.mem_toFinset.mpr he⟩
  have hpop : entry ∈ s.heap ∧ (∀ e ∈ s.heap, entry.cost ≤ e.cost) ∧
      (g.neighbours entry.node).entries.Perm (g.neighbours entry.node).entries :=
    ⟨List.mem_toFinset.mp hmem, fun e he => hmin e (List.mem_toFinset.mpr he), .refl _⟩
  refine ⟨.pop entry (g.neighbours entry.node).entries, ?_⟩
  by_cases hnode : entry.node = target
  · exact ⟨_, (if_pos hpop).trans (if_pos hnode)⟩
  · exact ⟨_, (if_pos hpop).trans (if_neg hnode)⟩

/-- Only a returned search takes no further turn. -/
theorem RouteGraph.step_progress (p : Phase) :
    (∃ result, p = .done result) ∨ ∃ c q, g.step target p c = some q := by
  cases p with
  | searching s =>
      right
      by_cases hnil : s.heap = []
      · exact ⟨.exhausted, .done none, if_pos hnil⟩
      · exact pop_enabled hnil
  | walking predecessors current path =>
      right
      refine ⟨.back, ?_⟩
      cases hl : predecessors.lookup current with
      | some pred =>
          simp only [step, hl]
          exact ⟨_, rfl⟩
      | none =>
          simp only [step, hl]
          exact ⟨_, rfl⟩
  | done result => exact .inl ⟨result, rfl⟩

/-! ## Without a negative cycle -/

def RouteGraph.NegativeCycle (g : RouteGraph) (start : PeerId) : Prop :=
  NegCycle g.links f64Max start

def Phase.Sound (g : RouteGraph) (start : PeerId) : Phase → Prop
  | .searching s => Scheduled g.links f64Max start s.labels ∧ Settling g.links f64Max start s.labels
  | .walking predecessors current path => ∃ s : Search, s.predecessors = predecessors ∧
      Settling g.links f64Max start s.labels ∧ Trail s.labels current path
  | .done (some path) => path.Nodup
  | .done none => True

theorem sound_init : Phase.Sound g start (.searching (.init start)) := by
  rw [Phase.Sound, Search.labels_init]
  exact ⟨init_scheduled, init_settling⟩

theorem Phase.Sound.turn (hno : ¬ g.NegativeCycle start) (h : p.Sound g start)
    (ht : g.Turn target p q) : q.Sound g start := by
  cases ht with
  | found _ _ => exact ⟨_, rfl, h.2, .singleton⟩
  | visit hmem hmin hperm _ =>
      have hstep := Search.labels_visit hmem hmin hperm
      exact ⟨h.1.step hstep, h.2.step f64Max_pos hno h.1 hstep⟩
  | exhausted _ => trivial
  | back hpred =>
      obtain ⟨s, rfl, hs, htrail⟩ := h
      exact ⟨s, rfl, hs, htrail.back hs hpred⟩
  | arrived _ =>
      obtain ⟨_, -, -, htrail⟩ := h
      exact List.nodup_reverse.mpr htrail.nodup

theorem ends_done (result : Option (List PeerId)) : Lts.Ends (g.step target) (.done result) := by
  refine Acc.intro _ fun q hq => ?_
  obtain ⟨c, hc⟩ := hq
  cases RouteGraph.step_turn hc

theorem ends_walking {s : Search} (hs : Settling g.links f64Max start s.labels) (current : PeerId)
    (path : List PeerId) : Lts.Ends (g.step target) (.walking s.predecessors current path) := by
  induction current using hs.wellFounded_tree.induction generalizing path with
  | _ current ih =>
      refine Acc.intro _ fun q hq => ?_
      obtain ⟨c, hc⟩ := hq
      cases RouteGraph.step_turn hc with
      | back hpred => exact ih _ hpred _
      | arrived _ => exact ends_done _

theorem ends_searching (hno : ¬ g.NegativeCycle start) {s : Search}
    (h : Phase.Sound g start (.searching s)) : Lts.Ends (g.step target) (.searching s) := by
  -- The heap loop ends as the label-correcting search on its labels does.
  have hacc := InvImage.accessible Search.labels (h.2.acc f64Max_pos hno h.1)
  induction hacc with
  | intro s _ ih =>
      refine Acc.intro _ fun q hq => ?_
      obtain ⟨c, hc⟩ := hq
      have hturn := RouteGraph.step_turn hc
      have hsound := h.turn hno hturn
      cases hturn with
      | found _ _ => exact ends_walking h.2 _ _
      | visit hmem hmin hperm _ => exact ih _ (Search.labels_visit hmem hmin hperm) hsound
      | exhausted _ => exact ends_done none

/-! ## With a negative cycle -/

def Phase.Busy (g : RouteGraph) (start target : PeerId) (p : Phase) : Prop :=
  ∃ s, p = .searching s ∧ Scheduled g.links f64Max start s.labels ∧ s.labels.dist target = none

theorem busy_init (hne : target ≠ start) : Phase.Busy g start target (.searching (.init start)) := by
  refine ⟨_, rfl, ?_, ?_⟩
  · rw [Search.labels_init]
    exact init_scheduled
  · rw [Search.labels_init]
    exact init_dist_of_ne hne

/-- The search never leaves the heap loop: its heap is never empty and never holds the target. -/
theorem Phase.Busy.turn (hneg : g.NegativeCycle start) (hlink : ∀ u, g.getLink u target = none)
    (h : p.Busy g start target) (ht : g.Turn target p q) : q.Busy g start target := by
  obtain ⟨s, rfl, hsch, hnone⟩ := h
  cases ht with
  | found hmem hnode =>
      obtain ⟨x, hx, -⟩ := hsch.heap _ (Search.mem_labels_heap hmem)
      cases hnone.symm.trans (hnode ▸ hx)
  | visit hmem hmin hperm _ =>
      have hstep := Search.labels_visit hmem hmin hperm
      refine ⟨_, rfl, hsch.step hstep, (hstep.dist_eq fun u l hl => ?_).trans hnone⟩
      rintro rfl
      obtain ⟨m, hm, -⟩ := RouteGraph.mem_links.mp hl
      cases (hlink u).symm.trans hm
  | exhausted hnil =>
      refine absurd ?_ (hsch.heap_ne_nil hneg)
      rw [Search.labels, hnil]
      rfl

theorem Phase.Busy.not_ends (hneg : g.NegativeCycle start) (hlink : ∀ u, g.getLink u target = none)
    (h : p.Busy g start target) : ¬ Lts.Ends (g.step target) p := by
  refine Lts.not_ends (I := Phase.Busy g start target) (fun p hp => ?_) h
  obtain ⟨s, rfl, hsch, hnone⟩ := hp
  rcases RouteGraph.step_progress (g := g) (.searching s) with ⟨_, h'⟩ | ⟨c, q, hstep⟩
  · cases h'
  · exact ⟨c, q, hstep, Phase.Busy.turn hneg hlink ⟨s, rfl, hsch, hnone⟩ (RouteGraph.step_turn hstep)⟩

end OmniMesh.Routing

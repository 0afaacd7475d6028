import Mathlib.Data.Finset.Max
import Mathlib.Data.Finite.Prod
import Mathlib.Tactic.NormNum
import OmniMesh.Lib.LabelSearch
import OmniMesh.Routing.Router

/-!
# The route search is a label-correcting search

The heap loop of `find_shortest_path` takes the steps of `LabelSearch.Step` on what its maps look up.
-/

namespace OmniMesh.Routing
open OmniMesh.Core LabelSearch

instance : Finite PeerId := by
  refine Finite.of_injective (fun p (i : Fin 32) => (p.bytes.get i).toFin) ?_
  rintro ⟨a⟩ ⟨b⟩ h
  exact congrArg PeerId.mk (Vector.ext fun i hi => UInt8.toFin_inj.mp (congrFun h ⟨i, hi⟩))

theorem one_lt_f64Max : 1 < f64Max :=
  one_lt_mul_of_lt_of_le (by norm_num) (one_le_pow₀ (by norm_num))

theorem f64Max_pos : 0 < f64Max := zero_lt_one.trans one_lt_f64Max

def RouteGraph.links (g : RouteGraph) (node : PeerId) : List (PeerId × ℚ) :=
  (g.neighbours node).entries.map fun link => (link.1, link.2.cost)

theorem RouteGraph.mem_links {g : RouteGraph} {node : PeerId} {l : PeerId × ℚ} :
    l ∈ g.links node ↔ ∃ m, g.getLink node l.1 = some m ∧ m.cost = l.2 := by
  have hget : ∀ v m, g.getLink node v = some m ↔ (⟨v, m⟩ : Σ _ : PeerId, LinkMetrics) ∈
      (g.neighbours node).entries := by
    intro v m
    rw [← AList.mem_lookup_iff, getLink, neighbours]
    cases g.edges.lookup node with
    | none => exact ⟨nofun, nofun⟩
    | some links => exact Iff.rfl
  constructor
  · intro h
    obtain ⟨link, hm, rfl⟩ := List.mem_map.mp h
    exact ⟨link.2, (hget _ _).mpr hm, rfl⟩
  · rintro ⟨m, hm, hc⟩
    exact List.mem_map.mpr ⟨⟨l.1, m⟩, (hget _ _).mp hm, Prod.ext rfl hc⟩

namespace Search

variable {s : Search} {entry : SearchState}

def labels (s : Search) : State PeerId ℚ where
  dist v := s.distances.lookup v
  pred v := s.predecessors.lookup v
  heap := s.heap.map fun e => (e.cost, e.node)

theorem lookup_insert_eq_update {ν : Type} (m : Map PeerId ν) (k : PeerId) (x : ν) :
    (fun v => (m.insert k x).lookup v) = Function.update (fun v => m.lookup v) k (some x) := by
  funext v
  by_cases hv : v = k
  · subst hv
    rw [AList.lookup_insert, Function.update_self]
  · rw [AList.lookup_insert_ne hv, Function.update_of_ne hv]

theorem labels_init (start : PeerId) : (init start).labels = LabelSearch.init start := by
  unfold labels init LabelSearch.init
  rw [lookup_insert_eq_update]
  rfl

theorem labels_relax (node : PeerId) (cost : ℚ) (link : Σ _ : PeerId, LinkMetrics) :
    (relax node cost s link).labels =
      LabelSearch.relax f64Max node cost s.labels (link.1, link.2.cost) := by
  unfold relax
  by_cases h : cost + link.2.cost < (s.distances.lookup link.1).getD f64Max
  · rw [if_pos h]
    refine Eq.trans ?_ (if_pos h).symm
    unfold labels
    rw [lookup_insert_eq_update, lookup_insert_eq_update]
    rfl
  · rw [if_neg h]
    exact (if_neg h).symm

theorem labels_foldl (node : PeerId) (cost : ℚ) (order : List (Σ _ : PeerId, LinkMetrics)) :
    (order.foldl (relax node cost) s).labels =
      (order.map fun link => (link.1, link.2.cost)).foldl (LabelSearch.relax f64Max node cost) s.labels := by
  induction order generalizing s with
  | nil => rfl
  | cons link order ih => rw [List.foldl_cons, ih, labels_relax, List.map_cons, List.foldl_cons]

theorem labels_erase :
    labels { s with heap := s.heap.erase entry } =
      { s.labels with heap := s.labels.heap.erase (entry.cost, entry.node) } := by
  have hinj : Function.Injective fun e : SearchState => (e.cost, e.node) := by
    rintro ⟨_, _⟩ ⟨_, _⟩ h
    cases h
    rfl
  unfold labels
  rw [List.map_erase hinj]

theorem mem_labels_heap (h : entry ∈ s.heap) : (entry.cost, entry.node) ∈ s.labels.heap :=
  List.mem_map.mpr ⟨entry, h, rfl⟩

theorem labels_min (h : ∀ e ∈ s.heap, entry.cost ≤ e.cost) : ∀ e ∈ s.labels.heap, entry.cost ≤ e.1 := by
  intro e he
  obtain ⟨e', he', rfl⟩ := List.mem_map.mp he
  exact h e' he'

/-- A popped entry that is not the target's is one step of the label-correcting search. -/
theorem labels_visit {g : RouteGraph} {order : List (Σ _ : PeerId, LinkMetrics)}
    (hmem : entry ∈ s.heap) (hmin : ∀ e ∈ s.heap, entry.cost ≤ e.cost)
    (hperm : order.Perm (g.neighbours entry.node).entries) :
    Step g.links f64Max s.labels (s.visit entry order).labels := by
  have hmem' := mem_labels_heap hmem
  have hmin' := labels_min hmin
  have hvisit : ¬ Stale s.labels (entry.cost, entry.node) → Step g.links f64Max s.labels
      (order.foldl (relax entry.node entry.cost) { s with heap := s.heap.erase entry }).labels := by
    intro hst
    have hlinks : (order.map fun link => (link.1, link.2.cost)).Perm (g.links entry.node) := hperm.map _
    have hstep := Step.visit (B := f64Max) hmem' hmin' hst hlinks
    rw [labels_foldl, labels_erase]
    exact hstep
  unfold visit
  cases hd : s.distances.lookup entry.node with
  | none =>
      simp only [hd]
      refine hvisit ?_
      rintro ⟨b, hb, -⟩
      cases hd.symm.trans hb
  | some best =>
      simp only [hd]
      split
      · rename_i hlt
        rw [labels_erase]
        exact .skip hmem' hmin' ⟨best, hd, hlt⟩
      · rename_i hlt
        refine hvisit ?_
        rintro ⟨b, hb, hlt'⟩
        cases hd.symm.trans hb
        exact hlt hlt'

end Search

end OmniMesh.Routing

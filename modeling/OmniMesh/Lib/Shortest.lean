import Mathlib.Order.Bounds.Basic
import OmniMesh.Lib.LabelSearch

/-!
# Shortest routes

With costs that are not negative, a vertex that comes off the heap of a label-correcting search is
labelled with the cost of a shortest route, and the predecessors lead back along one.
-/

variable {V 𝕜 : Type*} [AddCommGroup 𝕜]

/-- The routes of a graph with their costs. -/
inductive Route (G : V → List (V × 𝕜)) : V → V → 𝕜 → Prop
  | nil {v} : Route G v v 0
  | cons {u v t c w} : (v, c) ∈ G u → Route G v t w → Route G u t (c + w)

variable {G G' : V → List (V × 𝕜)} {B c d d' w x y : 𝕜} {a u v t : V} {p : List V}

namespace Route

theorem mono (hG : ∀ u, G u ⊆ G' u) (h : Route G u t w) : Route G' u t w := by
  induction h with
  | nil => exact .nil
  | cons hl _ ih => exact .cons (hG _ hl) ih

theorem snoc (h : Route G u v w) (hl : (t, c) ∈ G v) : Route G u t (w + c) := by
  induction h with
  | nil =>
      rw [zero_add, ← add_zero c]
      exact .cons hl .nil
  | cons hl' _ ih =>
      rw [add_assoc]
      exact .cons hl' (ih hl)

variable [LinearOrder 𝕜]

theorem of_walk (h : Walk G B a 0 (v :: p) w) : Route G a v w := by
  generalize hq : v :: p = q at h
  induction h generalizing v p with
  | nil =>
      cases hq
      exact .nil
  | snoc _ hl _ ih =>
      cases hq
      exact (ih rfl).snoc hl

variable [IsOrderedAddMonoid 𝕜] (hG : ∀ u, ∀ l ∈ G u, 0 ≤ l.2)
include hG

theorem nonneg (h : Route G u t w) : 0 ≤ w := by
  induction h with
  | nil => exact le_rfl
  | cons hl _ ih => exact add_nonneg (hG _ _ hl) ih

theorem extend_walk (h : Route G u t w) (ha : Walk G B a x (u :: p) y) (hb : y + w < B) :
    ∃ q, Walk G B a x (t :: q) (y + w) := by
  induction h generalizing y p with
  | nil =>
      rw [add_zero]
      exact ⟨p, ha⟩
  | @cons u v t c w hl hr ih =>
      rw [← add_assoc] at hb ⊢
      exact ih (.snoc ha hl ((le_add_of_nonneg_right (hr.nonneg hG)).trans_lt hb)) hb

/-- Below the bound, routes are live walks. -/
theorem exists_walk (h : Route G u t w) (hb : w < B) : ∃ q, Walk G B u 0 (t :: q) w := by
  rw [← zero_add w] at hb ⊢
  exact h.extend_walk hG .nil hb

end Route

namespace LabelSearch

variable {start : V} {s : State V 𝕜}

/-- The start keeps its label and every other labelled vertex has a predecessor. -/
structure Rooted (start : V) (s : State V 𝕜) : Prop where
  label : s.dist start = some 0
  root : s.pred start = none
  tree : ∀ v x, s.dist v = some x → v = start ∨ ∃ u, Tree s u v

theorem init_rooted [DecidableEq V] : Rooted start (init start : State V 𝕜) where
  label := init_dist_self
  root := rfl
  tree v x hx := by
    by_cases hv : v = start
    · exact .inl hv
    · rw [init_dist_of_ne hv] at hx
      cases hx

end LabelSearch

variable [LinearOrder 𝕜]

/-- The cost of a shortest route. -/
def Distance (G : V → List (V × 𝕜)) (u t : V) (d : 𝕜) : Prop := IsLeast {w | Route G u t w} d

namespace Distance

theorem unique (h : Distance G u t d) (h' : Distance G u t d') : d = d' := IsLeast.unique h h'

theorem congr (hG : ∀ u l, l ∈ G u ↔ l ∈ G' u) (h : Distance G u t d) : Distance G' u t d :=
  ⟨h.1.mono fun u l hl => (hG u l).mp hl, fun _ hw => h.2 (hw.mono fun u l hl => (hG u l).mpr hl)⟩

variable [IsOrderedAddMonoid 𝕜]

theorem self (hG : ∀ u, ∀ l ∈ G u, 0 ≤ l.2) : Distance G u u 0 := ⟨.nil, fun _ h => h.nonneg hG⟩

/-- What is left of a shortest route after its first link is a shortest route. -/
theorem tail (h : Distance G u t (c + w)) (hl : (v, c) ∈ G u) (hr : Route G v t w) : Distance G v t w :=
  ⟨hr, fun _ hw => le_of_add_le_add_left (h.2 (.cons hl hw))⟩

end Distance

namespace LabelSearch

variable {start : V} {s r : State V 𝕜} {l : V × 𝕜} {e : 𝕜 × V}

theorem Settling.route (h : Settling G B start s) (hx : s.dist v = some x) : Route G start v x := by
  obtain ⟨p, hp, -⟩ := h.label v x hx
  exact .of_walk hp.walk

variable [IsOrderedAddMonoid 𝕜]

section
variable [DecidableEq V]

theorem Rooted.relax (h : Rooted start s) (hw : 0 ≤ w) (hl : 0 ≤ l.2) :
    Rooted start (relax B u w s l) := by
  unfold LabelSearch.relax
  split
  · rename_i hlt
    have hne : start ≠ l.1 := by
      rintro rfl
      rw [h.label] at hlt
      exact absurd hlt (not_lt.mpr (add_nonneg hw hl))
    refine ⟨?_, ?_, fun v x hx => ?_⟩
    · exact (Function.update_of_ne hne ..).trans h.label
    · exact (Function.update_of_ne hne ..).trans h.root
    · by_cases hv : v = l.1
      · subst hv
        exact .inr ⟨u, Function.update_self ..⟩
      · have hx := (Function.update_of_ne hv ..).symm.trans hx
        refine (h.tree v x hx).imp id fun ⟨u', hu'⟩ => ⟨u', ?_⟩
        exact (Function.update_of_ne hv ..).trans hu'
  · exact h

theorem Rooted.foldl {order : List (V × 𝕜)} (h : Rooted start s) (hw : 0 ≤ w)
    (horder : ∀ l ∈ order, 0 ≤ l.2) : Rooted start (order.foldl (LabelSearch.relax B u w) s) := by
  induction order generalizing s with
  | nil => exact h
  | cons l order ih =>
      obtain ⟨hl, horder⟩ := List.forall_mem_cons.mp horder
      exact ih (h.relax hw hl) horder

end

variable (hG : ∀ u, ∀ l ∈ G u, 0 ≤ l.2) (hsch : Scheduled G B start s) (hset : Settling G B start s)
include hG

include hsch hset in
theorem Rooted.step [DecidableEq V] (h : Rooted start s) (hs : Step G B s r) : Rooted start r := by
  cases hs with
  | skip _ _ _ => exact ⟨h.label, h.root, h.tree⟩
  | @visit e order he _ hst hperm =>
      have hrest : Rooted start { s with heap := s.heap.erase e } := ⟨h.label, h.root, h.tree⟩
      have hcost := (hset.route (hsch.label_eq he hst)).nonneg hG
      exact hrest.foldl hcost fun l hl => hG _ l (hperm.subset hl)

include hsch in
/-- The vertices of a live walk are labelled as well, or an entry that is cheaper is still to come. -/
theorem Scheduled.label_or_entry (hw : Walk G B start 0 (v :: p) w) :
    (∃ y, s.dist v = some y ∧ y ≤ w) ∨ ∃ e ∈ s.heap, e.1 ≤ w := by
  generalize hq : v :: p = q at hw
  induction hw generalizing v p with
  | nil =>
      cases hq
      exact .inl hsch.start
  | @snoc u p w v c _ hl hb ih =>
      cases hq
      have hmore : w ≤ w + c := le_add_of_nonneg_right (hG _ _ hl)
      rcases ih rfl with ⟨y, hy, hle⟩ | ⟨e, he, hle⟩
      · rcases hsch.open_or_settled u y hy with hmem | hsettled
        · exact .inr ⟨_, hmem, hle.trans hmore⟩
        · have hlink := (hsettled _ hl).trans (add_le_add hle le_rfl)
          cases hd : s.dist v with
          | none =>
              rw [hd] at hlink
              exact absurd hlink (not_le.mpr hb)
          | some y' =>
              rw [hd] at hlink
              exact .inl ⟨y', rfl, hlink⟩
      · exact .inr ⟨e, he, hle.trans hmore⟩

include hsch hset in
/-- A cheapest entry of the heap is that of a vertex labelled with its distance. -/
theorem Scheduled.distance (hB : 0 < B) (he : e ∈ s.heap) (hmin : ∀ e' ∈ s.heap, e.1 ≤ e'.1) :
    ∃ x, s.dist e.2 = some x ∧ x < B ∧ Distance G start e.2 x := by
  obtain ⟨x, hx, hle⟩ := hsch.heap e he
  obtain ⟨q, hq, -⟩ := hset.label e.2 x hx
  have hxB : x < B := hq.walk.lt_bound hB
  refine ⟨x, hx, hxB, hset.route hx, fun w hw => ?_⟩
  rcases lt_or_ge w B with hwB | hwB
  · obtain ⟨p, hp⟩ := Route.exists_walk hG hw hwB
    rcases hsch.label_or_entry hG hp with ⟨y, hy, hyw⟩ | ⟨e', he', hew⟩
    · rw [hx] at hy
      cases hy
      exact hyw
    · exact hle.trans ((hmin e' he').trans hew)
  · exact hxB.le.trans hwB

end LabelSearch

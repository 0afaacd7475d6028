import Mathlib.Algebra.Order.Group.Defs
import Mathlib.Data.Fintype.Card
import Mathlib.Data.Set.Finite.Lattice
import Mathlib.Data.Set.Finite.List
import Mathlib.Order.Defs.LinearOrder

/-!
# Walks in a weighted graph

A graph lists the links out of each vertex with their costs, which may be negative. A walk is live when
the cost after each of its links stays below a bound; vertices are listed last first.
-/

variable {V 𝕜 : Type*} [AddCommGroup 𝕜] [LinearOrder 𝕜]

/-- The live walks from `a`, with the cost `x` there. -/
inductive Walk (G : V → List (V × 𝕜)) (B : 𝕜) (a : V) (x : 𝕜) : List V → 𝕜 → Prop
  | nil : Walk G B a x [a] x
  | snoc {u p w v c} : Walk G B a x (u :: p) w → (v, c) ∈ G u → w + c < B →
      Walk G B a x (v :: u :: p) (w + c)

/-- A live walk from `a` that comes back to one of its vertices at a lower cost. -/
def NegCycle (G : V → List (V × 𝕜)) (B : 𝕜) (a : V) : Prop :=
  ∃ v p w q w', Walk G B a 0 (v :: p) w ∧ Walk G B v w (v :: q) w' ∧ w' < w

namespace Walk

variable {G : V → List (V × 𝕜)} {B x w : 𝕜} {a u v : V} {p : List V}

theorem lt_bound (hx : x < B) (h : Walk G B a x p w) : w < B := by
  cases h with
  | nil => exact hx
  | snoc _ _ hb => exact hb

theorem le_of_nonneg (hG : ∀ u, ∀ l ∈ G u, 0 ≤ l.2) [IsOrderedAddMonoid 𝕜] (h : Walk G B a x p w) :
    x ≤ w := by
  induction h with
  | nil => exact le_rfl
  | snoc _ hl _ ih => exact ih.trans (le_add_of_nonneg_right (hG _ _ hl))

theorem finite_costs : ∀ p : List V, {w | Walk G B a x p w}.Finite
  | [] => Set.finite_empty.subset fun _ h => nomatch h
  | [v] => (Set.finite_singleton x).subset fun w h => by
      cases h
      rfl
  | v :: u :: p => by
      refine ((finite_costs (u :: p)).image2 (fun w (l : V × 𝕜) => w + l.2)
        (List.finite_toSet (G u))).subset ?_
      intro w h
      cases h with
      | snoc hw hl _ => exact ⟨_, hw, _, hl, rfl⟩

theorem finite_nodup_costs [Finite V] :
    {w | ∃ p : List V, p.Nodup ∧ Walk G B a x p w}.Finite := by
  have hfin : {p : List V | p.Nodup}.Finite := by
    have := Fintype.ofFinite V
    exact (List.finite_length_le V (Fintype.card V)).subset fun p hp => hp.length_le_card
  have hall : (⋃ p ∈ {p : List V | p.Nodup}, {w | Walk G B a x p w}).Finite :=
    hfin.biUnion fun p _ => finite_costs p
  refine hall.subset ?_
  rintro w ⟨p, hp, hw⟩
  exact Set.mem_biUnion hp hw

end Walk

theorem not_negCycle_of_nonneg {G : V → List (V × 𝕜)} {B : 𝕜} {a : V} [IsOrderedAddMonoid 𝕜]
    (hG : ∀ u, ∀ l ∈ G u, 0 ≤ l.2) : ¬ NegCycle G B a := by
  rintro ⟨v, p, w, q, w', -, hcycle, hlt⟩
  exact absurd (hcycle.le_of_nonneg hG) (not_le.mpr hlt)

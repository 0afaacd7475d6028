import Mathlib.Algebra.BigOperators.Fin
import Mathlib.Algebra.Order.BigOperators.Ring.Finset
import Mathlib.Algebra.Order.Field.Basic
import Mathlib.Tactic.Linarith
import Mathlib.Tactic.Ring

/-!
# Exponential moving averages
-/

namespace Average

variable {K : Type*} [Field K] [LinearOrder K] [IsStrictOrderedRing K] {α old old' x y : K}
  {samples : List K}

/-- The average after one sample of weight `α`. -/
def ema (α x old : K) : K := α * x + (1 - α) * old

def smooth (α : K) (old : K) (samples : List K) : K := samples.foldl (fun old x => ema α x old) old

def lowest (old : K) (samples : List K) : K := samples.foldl min old

def highest (old : K) (samples : List K) : K := samples.foldl max old

omit [LinearOrder K] [IsStrictOrderedRing K] in
/-- The weight of a sample falls by the factor `1 - α` with each later one. -/
theorem smooth_eq (α old : K) (samples : List K) :
    smooth α old samples = (1 - α) ^ samples.length * old +
      ∑ i : Fin samples.length, α * (1 - α) ^ (samples.length - (i + 1)) * samples.get i := by
  induction samples generalizing old with
  | nil => simp [smooth]
  | cons x samples ih =>
      have hfirst : smooth α old (x :: samples) = smooth α (ema α x old) samples := rfl
      rw [hfirst, ih, ema]
      simp [Fin.sum_univ_succ]
      ring

theorem ema_mono (h0 : 0 ≤ α) (h1 : α ≤ 1) (hx : x ≤ y) (hold : old ≤ old') :
    ema α x old ≤ ema α y old' := by
  have hkeep : 0 ≤ 1 - α := sub_nonneg.mpr h1
  exact add_le_add (mul_le_mul_of_nonneg_left hx h0) (mul_le_mul_of_nonneg_left hold hkeep)

omit [LinearOrder K] [IsStrictOrderedRing K] in
theorem ema_self (α x : K) : ema α x x = x := by
  rw [ema]
  ring

theorem le_smooth {lo : K} (h0 : 0 ≤ α) (h1 : α ≤ 1) (hold : lo ≤ old) (hs : ∀ x ∈ samples, lo ≤ x) :
    lo ≤ smooth α old samples := by
  induction samples generalizing old with
  | nil => exact hold
  | cons x samples ih =>
      obtain ⟨hx, hs⟩ := List.forall_mem_cons.mp hs
      apply ih _ hs
      rw [← ema_self α lo]
      exact ema_mono h0 h1 hx hold

theorem smooth_le {hi : K} (h0 : 0 ≤ α) (h1 : α ≤ 1) (hold : old ≤ hi) (hs : ∀ x ∈ samples, x ≤ hi) :
    smooth α old samples ≤ hi := by
  induction samples generalizing old with
  | nil => exact hold
  | cons x samples ih =>
      obtain ⟨hx, hs⟩ := List.forall_mem_cons.mp hs
      apply ih _ hs
      rw [← ema_self α hi]
      exact ema_mono h0 h1 hx hold

/-! ## Between the least and the greatest -/

omit [Field K] [IsStrictOrderedRing K] in
theorem lowest_le : lowest old samples ≤ old ∧ ∀ x ∈ samples, lowest old samples ≤ x := by
  induction samples generalizing old with
  | nil => simp [lowest]
  | cons x samples ih =>
      obtain ⟨hmin, hs⟩ := @ih (min old x)
      refine ⟨hmin.trans (min_le_left _ _), List.forall_mem_cons.mpr ⟨?_, hs⟩⟩
      exact hmin.trans (min_le_right _ _)

omit [Field K] [IsStrictOrderedRing K] in
theorem le_highest : old ≤ highest old samples ∧ ∀ x ∈ samples, x ≤ highest old samples := by
  induction samples generalizing old with
  | nil => simp [highest]
  | cons x samples ih =>
      obtain ⟨hmax, hs⟩ := @ih (max old x)
      refine ⟨(le_max_left _ _).trans hmax, List.forall_mem_cons.mpr ⟨?_, hs⟩⟩
      exact (le_max_right _ _).trans hmax

theorem lowest_le_smooth (h0 : 0 ≤ α) (h1 : α ≤ 1) : lowest old samples ≤ smooth α old samples :=
  le_smooth h0 h1 lowest_le.1 lowest_le.2

theorem smooth_le_highest (h0 : 0 ≤ α) (h1 : α ≤ 1) : smooth α old samples ≤ highest old samples :=
  smooth_le h0 h1 le_highest.1 le_highest.2

end Average

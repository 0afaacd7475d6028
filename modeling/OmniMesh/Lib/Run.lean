import Mathlib.Data.List.Basic

/-!
# Runs of a labelled step function

A system is a step function `step : σ → α → Option σ`. The action carries every choice the scheduler,
the network or a caller can make, and `none` says that the action is not enabled.
-/

namespace Lts

variable {σ α : Type*} {step : σ → α → Option σ} {P Q : σ → α → Prop}

/-- The state after a list of actions, `none` when one of them was not enabled. -/
def run (step : σ → α → Option σ) : σ → List α → Option σ
  | s, [] => some s
  | s, a :: as => (step s a).bind fun t => run step t as

/-- Each step of the run meets `P`, a condition on the state before the step and on its action. -/
def Meets (step : σ → α → Option σ) (P : σ → α → Prop) : σ → List α → Prop
  | _, [] => True
  | s, a :: as => P s a ∧ ∀ t, step s a = some t → Meets step P t as

theorem run_cons {s t as} {a : α} (h : run step s (a :: as) = some t) :
    ∃ u, step s a = some u ∧ run step u as = some t := by
  simpa [run, Option.bind_eq_some_iff] using h

theorem run_append {s : σ} {as bs : List α} :
    run step s (as ++ bs) = (run step s as).bind fun t => run step t bs := by
  induction as generalizing s with
  | nil => rfl
  | cons a as ih => simp only [List.cons_append, run, Option.bind_assoc, ih]

theorem exists_of_run_append {s t : σ} {as bs : List α} (h : run step s (as ++ bs) = some t) :
    ∃ u, run step s as = some u ∧ run step u bs = some t :=
  Option.bind_eq_some_iff.mp (run_append ▸ h)

theorem Meets.cons {s u as} {a : α} (hp : P s a) (hs : step s a = some u) (hm : Meets step P u as) :
    Meets step P s (a :: as) :=
  ⟨hp, fun t ht => by rw [hs] at ht; cases ht; exact hm⟩

/-- The invariant rule: what each step keeps, under a condition on the steps, a run keeps. -/
theorem Meets.invariant {I : σ → Prop}
    (hstep : ∀ s a t, I s → P s a → step s a = some t → I t) {s as t}
    (hs : I s) (hm : Meets step P s as) (hr : run step s as = some t) : I t := by
  induction as generalizing s with
  | nil => cases hr; exact hs
  | cons a as ih =>
      obtain ⟨u, hu, hr'⟩ := run_cons hr
      exact ih (hstep s a u hs hm.1 hu) (hm.2 u hu) hr'

theorem meets_true : ∀ {s : σ} {as : List α}, Meets step (fun _ _ => True) s as
  | _, [] => trivial
  | _, _ :: _ => ⟨trivial, fun _ _ => meets_true⟩

theorem run_invariant {I : σ → Prop} (hstep : ∀ s a t, I s → step s a = some t → I t) {s as t}
    (hs : I s) (hr : run step s as = some t) : I t :=
  Meets.invariant (fun s a t h (_ : True) => hstep s a t h) hs meets_true hr

/-- The invariant rule for a run of actions that are all of one kind. -/
theorem run_invariant_of_mem {I : σ → Prop} {as : List α}
    (hstep : ∀ s a t, a ∈ as → I s → step s a = some t → I t) {s t} (hs : I s) (hr : run step s as = some t) :
    I t := by
  induction as generalizing s with
  | nil => cases hr; exact hs
  | cons a as ih =>
      obtain ⟨u, hu, hr'⟩ := run_cons hr
      exact ih (fun s b t hb => hstep s b t (List.mem_cons_of_mem a hb)) (hstep s a u List.mem_cons_self hs hu) hr'

/-- The invariant rule for what the actions bring, one after the other. -/
theorem run_filterMap {β : Type*} {out : α → Option β} {I : σ → List β → Prop} {as : List α}
    (hstep : ∀ s a t bs, a ∈ as → I s bs → step s a = some t → I t (bs ++ (out a).toList)) {s t bs}
    (hs : I s bs) (hr : run step s as = some t) : I t (bs ++ as.filterMap out) := by
  induction as generalizing s bs with
  | nil =>
      cases hr
      simpa using hs
  | cons a as ih =>
      obtain ⟨u, hu, hr'⟩ := run_cons hr
      have hu' := ih (fun s b t bs hb => hstep s b t bs (List.mem_cons_of_mem a hb))
        (hstep s a u bs List.mem_cons_self hs hu) hr'
      rw [List.append_assoc] at hu'
      rw [List.filterMap_cons]
      cases hout : out a <;> simpa [hout] using hu'

/-- The invariant rule for a relation between the state and the actions that led to it. -/
theorem run_history {I : σ → List α → Prop}
    (hstep : ∀ s a t as, I s as → step s a = some t → I t (as ++ [a])) {s t as} (hs : I s [])
    (hr : run step s as = some t) : I t as := by
  have h : I t ([] ++ as.filterMap some) := run_filterMap (fun s a t as _ hI => hstep s a t as hI) hs hr
  simpa using h

theorem Meets.and {s as} (h : Meets step P s as) (h' : Meets step Q s as) :
    Meets step (fun s a => P s a ∧ Q s a) s as := by
  induction as generalizing s with
  | nil => trivial
  | cons a as ih => exact ⟨⟨h.1, h'.1⟩, fun t ht => ih (h.2 t ht) (h'.2 t ht)⟩

/-! ## Runs that end -/

def Ends (step : σ → α → Option σ) : σ → Prop := Acc fun t s => ∃ a, step s a = some t

theorem Ends.exists_run {F : σ → Prop} (hprogress : ∀ s, F s ∨ ∃ a t, step s a = some t) {s}
    (h : Ends step s) : ∃ as t, run step s as = some t ∧ F t := by
  induction h with
  | intro s _ ih =>
      rcases hprogress s with hF | ⟨a, t, ht⟩
      · exact ⟨[], s, rfl, hF⟩
      · obtain ⟨as, u, hu, hF⟩ := ih t ⟨a, ht⟩
        refine ⟨a :: as, u, ?_, hF⟩
        rw [run, ht]
        exact hu

/-- A measure that every step makes smaller. -/
theorem ends_of_lt {I : σ → Prop} (measure : σ → ℕ)
    (hstep : ∀ s a t, I s → step s a = some t → I t ∧ measure t < measure s) {s} (hs : I s) :
    Ends step s := by
  induction h : measure s using Nat.strongRecOn generalizing s with
  | ind n ih =>
      refine Acc.intro s fun t ⟨a, ht⟩ => ?_
      obtain ⟨hI, hlt⟩ := hstep s a t hs ht
      exact ih (measure t) (h ▸ hlt) hI rfl

/-- A measure that grows with every step and has a bound. -/
theorem ends_of_measure {I : σ → Prop} (measure : σ → ℕ) (bound : ℕ) (hbound : ∀ s, I s → measure s ≤ bound)
    (hstep : ∀ s a t, I s → step s a = some t → I t ∧ measure s < measure t) {s} (hs : I s) :
    Ends step s := by
  apply ends_of_lt (fun s => bound - measure s) _ hs
  intro s a t h ht
  obtain ⟨hI, hlt⟩ := hstep s a t h ht
  have := hbound t hI
  exact ⟨hI, by omega⟩

/-- An invariant under which some action is always enabled gives a run that does not end. -/
theorem not_ends {I : σ → Prop} (hstep : ∀ s, I s → ∃ a t, step s a = some t ∧ I t) {s} (hs : I s) :
    ¬ Ends step s := by
  intro h
  induction h with
  | intro s _ ih =>
      obtain ⟨a, t, ht, hI⟩ := hstep s hs
      exact ih t ⟨a, ht⟩ hI

end Lts

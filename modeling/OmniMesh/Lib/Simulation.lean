import OmniMesh.Lib.Run

/-!
# Refinement of one system by another

A label says what is seen of a step; steps without one are silent. A system refines another one when its
runs, as they are seen, are runs of the other.
-/

namespace Lts

variable {σ τ α β : Type*} {step : σ → α → Option σ} {spec : τ → β → Option τ} {label : σ → α → Option β}
  {R : σ → τ → Prop}

/-- What is seen of a run. -/
def observe (step : σ → α → Option σ) (label : σ → α → Option β) : σ → List α → List β
  | _, [] => []
  | s, a :: as =>
      match step s a with
      | none => []
      | some t => (label s a).toList ++ observe step label t as

/-- A forward simulation. -/
structure Simulates (step : σ → α → Option σ) (spec : τ → β → Option τ) (label : σ → α → Option β)
    (R : σ → τ → Prop) : Prop where
  silent : ∀ s a t x, R s x → step s a = some t → label s a = none → R t x
  visible : ∀ s a t x b, R s x → step s a = some t → label s a = some b → ∃ y, spec x b = some y ∧ R t y

theorem Simulates.run (h : Simulates step spec label R) {s as t x} (hR : R s x)
    (hr : run step s as = some t) : ∃ y, run spec x (observe step label s as) = some y ∧ R t y := by
  induction as generalizing s x with
  | nil =>
      cases hr
      exact ⟨x, rfl, hR⟩
  | cons a as ih =>
      obtain ⟨u, hu, hr'⟩ := run_cons hr
      simp only [observe, hu]
      cases hl : label s a with
      | none => exact ih (h.silent s a u x hR hu hl) hr'
      | some b =>
          obtain ⟨y, hy, hRy⟩ := h.visible s a u x b hR hu hl
          obtain ⟨z, hz, hRz⟩ := ih hRy hr'
          refine ⟨z, ?_, hRz⟩
          simp only [Option.toList_some, List.singleton_append, Lts.run, hy]
          exact hz

end Lts

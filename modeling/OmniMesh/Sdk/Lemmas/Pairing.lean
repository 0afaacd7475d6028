import OmniMesh.Sdk.Pairing

/-!
# Which connections survive

A connection that is closed was first closed by a node that had replaced it.
-/

namespace OmniMesh.Sdk.Pairing

variable {s t : Pairing} {x y : Bool} {conn c : Nat} {stage : EndStage}

theorem setStage_self : (s.setStage x conn stage).stage x conn = stage := by
  simp [setStage]

theorem setStage_of_ne (h : ¬ (y = x ∧ c = conn)) :
    (s.setStage x conn stage).stage y c = s.stage y c := by
  unfold setStage
  by_cases hy : y = x
  · subst hy
    have hc : c ≠ conn := fun hc => h ⟨rfl, hc⟩
    simp [Function.update_of_ne hc]
  · simp [Function.update_of_ne hy]

structure Kept (s : Pairing) : Prop where
  last : ∀ x, s.sessions x = (s.inserts x).getLast?
  entered : ∀ x conn, s.sessions x = some conn →
    s.stage x conn = .running ∨ s.stage x conn = .closed
  evicted : ∀ x conn, s.stage x conn = .closed →
    ∃ y, s.stage y conn = .closed ∧ s.sessions y ≠ some conn

theorem init_kept : Kept init where
  last _ := rfl
  entered _ _ h := by cases h
  evicted _ _ h := by cases h

theorem Kept.advance (h : Kept s) (hold : s.stage x conn ≠ .running ∧ s.stage x conn ≠ .closed)
    (hnew : stage ≠ .closed) : Kept (s.setStage x conn stage) where
  last := h.last
  entered y c hs := by
    by_cases he : y = x ∧ c = conn
    · obtain ⟨rfl, rfl⟩ := he
      rcases h.entered y c hs with hr | hc
      · exact absurd hr hold.1
      · exact absurd hc hold.2
    · rw [setStage_of_ne he]
      exact h.entered y c hs
  evicted y c hc := by
    have he : ¬ (y = x ∧ c = conn) := by
      rintro ⟨rfl, rfl⟩
      rw [setStage_self] at hc
      exact hnew hc
    rw [setStage_of_ne he] at hc
    obtain ⟨z, hz, hsess⟩ := h.evicted y c hc
    refine ⟨z, ?_, hsess⟩
    rw [setStage_of_ne]
    · exact hz
    · rintro ⟨rfl, rfl⟩
      exact hold.2 hz

theorem Kept.close (h : Kept s) (hwhy : s.sessions x ≠ some conn ∨ s.stage (!x) conn = .closed) :
    Kept (s.setStage x conn .closed) where
  last := h.last
  entered y c hs := by
    by_cases he : y = x ∧ c = conn
    · obtain ⟨rfl, rfl⟩ := he
      exact .inr setStage_self
    · rw [setStage_of_ne he]
      exact h.entered y c hs
  evicted y c hc := by
    -- who closed it first: this end, or the one that did so before
    have hfirst : (∃ z, s.stage z c = .closed ∧ s.sessions z ≠ some c) ∨
        (c = conn ∧ s.sessions x ≠ some conn) := by
      by_cases he : y = x ∧ c = conn
      · obtain ⟨rfl, rfl⟩ := he
        rcases hwhy with hs | hother
        · exact .inr ⟨rfl, hs⟩
        · exact .inl (h.evicted _ _ hother)
      · rw [setStage_of_ne he] at hc
        exact .inl (h.evicted y c hc)
    rcases hfirst with ⟨z, hz, hs⟩ | ⟨rfl, hs⟩
    · refine ⟨z, ?_, hs⟩
      by_cases he : z = x ∧ c = conn
      · obtain ⟨rfl, rfl⟩ := he
        exact setStage_self
      · rw [setStage_of_ne he]
        exact hz
    · exact ⟨x, setStage_self, hs⟩

/-- A running end puts its session into the map. -/
theorem Kept.hold (h : Kept s) (hrun : s.stage x conn = .running) :
    Kept { s with
      sessions := Function.update s.sessions x (some conn)
      inserts := Function.update s.inserts x (s.inserts x ++ [conn]) } where
  last y := by
    by_cases hy : y = x
    · subst hy
      simp only [Function.update_self, List.getLast?_append, List.getLast?_singleton, Option.some_or]
    · simp only [Function.update_of_ne hy]
      exact h.last y
  entered y c hs := by
    by_cases hy : y = x
    · subst hy
      simp only [Function.update_self, Option.some.injEq] at hs
      subst hs
      exact .inl hrun
    · simp only [Function.update_of_ne hy] at hs
      exact h.entered y c hs
  evicted y c hc := by
    obtain ⟨z, hz, hs⟩ := h.evicted y c hc
    refine ⟨z, hz, ?_⟩
    by_cases hzx : z = x
    · subst hzx
      simp only [Function.update_self, ne_eq, Option.some.injEq]
      rintro rfl
      cases hrun.symm.trans hz
    · simp only [Function.update_of_ne hzx]
      exact hs

theorem Kept.insert (h : Kept s) (hold : s.stage x conn = .shaken) :
    Kept { s.setStage x conn .running with
      sessions := Function.update s.sessions x (some conn)
      inserts := Function.update s.inserts x (s.inserts x ++ [conn]) } := by
  have hrun : Kept (s.setStage x conn .running) := by
    refine h.advance ?_ nofun
    rw [hold]
    exact ⟨nofun, nofun⟩
  exact hrun.hold setStage_self

theorem Kept.step {act} (h : Kept s) (hs : s.step act = some t) : Kept t := by
  cases act with
  | opened conn =>
      simp only [Pairing.step] at hs
      split at hs <;> cases hs
      rename_i habs
      have hfirst : Kept (s.setStage false conn .handshaking) := by
        refine h.advance ?_ nofun
        rw [habs.1]
        exact ⟨nofun, nofun⟩
      refine hfirst.advance ?_ nofun
      rw [setStage_of_ne (fun he => by cases he.1), habs.2]
      exact ⟨nofun, nofun⟩
  | shaken x conn =>
      simp only [Pairing.step] at hs
      split at hs <;> cases hs
      rename_i hst
      refine h.advance ?_ nofun
      rw [hst]
      exact ⟨nofun, nofun⟩
  | failed x conn =>
      simp only [Pairing.step] at hs
      split at hs <;> cases hs
      rename_i hst
      exact h.close (.inr hst.2)
  | insert x conn =>
      simp only [Pairing.step] at hs
      split at hs <;> cases hs
      rename_i hst
      exact h.insert hst
  | exit x conn =>
      simp only [Pairing.step] at hs
      split at hs <;> cases hs
      rename_i hst
      exact h.close hst.2

theorem Kept.agreed_iff (h : Kept s) : s.Agreed ↔ s.SameLast := by
  constructor
  · rintro ⟨conn, hs, -⟩
    exact ⟨conn, fun x => (h.last x).symm.trans (hs x)⟩
  · rintro ⟨conn, hl⟩
    have hs : ∀ x, s.sessions x = some conn := fun x => (h.last x).trans (hl x)
    refine ⟨conn, hs, fun x => ?_⟩
    rcases h.entered x conn (hs x) with hr | hc
    · exact hr
    · obtain ⟨y, -, hne⟩ := h.evicted x conn hc
      exact absurd (hs y) hne

theorem settled_of_closed (h : ∀ x conn, s.stage x conn = .closed ∨ s.stage x conn = .absent) :
    s.Settled := by
  intro act hact
  cases act with
  | opened conn => exact absurd rfl (hact conn)
  | shaken x conn => rcases h x conn with hs | hs <;> simp [Pairing.step, hs]
  | failed x conn => rcases h x conn with hs | hs <;> simp [Pairing.step, hs]
  | insert x conn => rcases h x conn with hs | hs <;> simp [Pairing.step, hs]
  | exit x conn => rcases h x conn with hs | hs <;> simp [Pairing.step, hs]

/-- When everything has settled, only the agreed connection can be open. -/
theorem Settled.agreed_of_open (h : s.Settled) (ho : s.Open conn) : s.Agreed := by
  refine ⟨conn, fun x => ?_, ho⟩
  have hstep := h (.exit x conn) nofun
  simp only [Pairing.step] at hstep
  split at hstep
  · cases hstep
  · rename_i hen
    by_contra hne
    exact hen ⟨ho x, .inl hne⟩

end OmniMesh.Sdk.Pairing

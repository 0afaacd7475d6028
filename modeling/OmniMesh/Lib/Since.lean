import Mathlib.Data.List.Basic

/-!
# What has happened since the last reset

Some of the events of a stream are resets. What counts is the last of them, with the events after it.
-/

namespace Since

variable {ε : Type*} (resets : ε → Bool)

/-- `start` is the last reset, and `later` comes after it. -/
def Split (events : List ε) (start : ε) (later : List ε) : Prop :=
  ∃ earlier, events = earlier ++ start :: later ∧ resets start ∧ ∀ e ∈ later, resets e = false

variable {resets} {events later : List ε} {start e : ε}

theorem not_split_nil : ¬ Split resets [] start later := by
  rintro ⟨earlier, h, -⟩
  simp at h

/-- Where the last event is when the stream is split at one of its events. -/
theorem concat_eq_append_cons {earlier : List ε} (h : events ++ [e] = earlier ++ start :: later) :
    (start = e ∧ later = []) ∨ ∃ l, later = l ++ [e] ∧ events = earlier ++ start :: l := by
  rcases List.eq_nil_or_concat' later with rfl | ⟨l, x, rfl⟩
  · obtain ⟨-, h⟩ := List.append_inj' h rfl
    cases h
    exact .inl ⟨rfl, rfl⟩
  · rw [← List.cons_append, ← List.append_assoc] at h
    obtain ⟨hevents, hx⟩ := List.append_inj' h rfl
    cases hx
    exact .inr ⟨l, rfl, hevents⟩

theorem split_concat_of_resets (he : resets e) :
    Split resets (events ++ [e]) start later ↔ start = e ∧ later = [] := by
  constructor
  · rintro ⟨earlier, h, hstart, hlater⟩
    rcases concat_eq_append_cons h with hlast | ⟨l, rfl, -⟩
    · exact hlast
    · cases he.symm.trans (hlater e (by simp))
  · rintro ⟨rfl, rfl⟩
    exact ⟨events, rfl, he, by simp⟩

theorem split_concat_of_not (he : resets e = false) :
    Split resets (events ++ [e]) start later ↔ ∃ l, later = l ++ [e] ∧ Split resets events start l := by
  constructor
  · rintro ⟨earlier, h, hstart, hlater⟩
    rcases concat_eq_append_cons h with ⟨rfl, -⟩ | ⟨l, rfl, hevents⟩
    · cases he.symm.trans hstart
    · exact ⟨l, rfl, earlier, hevents, hstart, fun x hx => hlater x (List.mem_append_left _ hx)⟩
  · rintro ⟨l, rfl, earlier, rfl, hstart, hl⟩
    refine ⟨earlier, by simp, hstart, fun x hx => ?_⟩
    rcases List.mem_append.mp hx with hx | hx
    · exact hl x hx
    · exact List.mem_singleton.mp hx ▸ he

end Since

import Mathlib.Data.List.Basic
import Mathlib.Logic.Function.Basic

/-!
# Tables that grow at their end

A list as a table whose rows are found by their number. A new row is appended and an old one replaced,
so the number of a row stays.
-/

namespace Table

variable {α β : Type*} {l : List α} {a b : α} {i j : ℕ}

theorem getElem?_concat_some (h : (l ++ [b])[i]? = some a) : l[i]? = some a ∨ (i = l.length ∧ a = b) := by
  rcases Nat.lt_trichotomy i l.length with hi | rfl | hi
  · rw [List.getElem?_append_left hi] at h
    exact .inl h
  · rw [List.getElem?_concat_length] at h
    cases h
    exact .inr ⟨rfl, rfl⟩
  · rw [List.getElem?_eq_none (by simp; omega)] at h
    cases h

theorem getElem?_concat_of_some (h : l[i]? = some a) : (l ++ [b])[i]? = some a := by
  rw [List.getElem?_append_left (List.getElem?_eq_some_iff.mp h).1]
  exact h

theorem getElem?_set_some (h : (l.set i a)[j]? = some b) : (i = j ∧ b = a) ∨ (i ≠ j ∧ l[j]? = some b) := by
  by_cases hij : i = j
  · subst hij
    have hlt : i < l.length := by simpa using (List.getElem?_eq_some_iff.mp h).1
    rw [List.getElem?_set_self hlt] at h
    exact .inl ⟨rfl, (Option.some.inj h).symm⟩
  · exact .inr ⟨hij, by rwa [List.getElem?_set_ne hij] at h⟩

theorem getElem?_set_of_some (h : l[i]? = some b) : (l.set i a)[i]? = some a :=
  List.getElem?_set_self (List.getElem?_eq_some_iff.mp h).1

/-- The rows of `ks` are changed, each as if it were changed once. -/
theorem getElem?_foldl_modify {f : α → α} (hf : ∀ a, f (f a) = f a) (ks : List ℕ) (l : List α) (i : ℕ) :
    (ks.foldl (fun l k => l.modify k f) l)[i]? = l[i]?.map fun a => if i ∈ ks then f a else a := by
  induction ks generalizing l with
  | nil => simp
  | cons k ks ih =>
      rw [List.foldl_cons, ih, List.getElem?_modify]
      by_cases hk : k = i
      · subst hk
        cases l[k]? with
        | none => rfl
        | some a => by_cases hmem : k ∈ ks <;> simp [hmem, hf]
      · cases l[i]? with
        | none => simp
        | some a => simp [hk, Ne.symm hk]

/-- One of a family of tables has got a new row. -/
theorem mem_update_concat [DecidableEq β] {f : β → List α} {k k' : β} :
    b ∈ Function.update f k (f k ++ [a]) k' ↔ b ∈ f k' ∨ (k' = k ∧ b = a) := by
  by_cases hk : k' = k
  · subst hk
    simp
  · simp [hk]

theorem getElem?_update_concat [DecidableEq β] {f : β → List α} {k k' : β}
    (h : (Function.update f k (f k ++ [a]) k')[i]? = some b) :
    (f k')[i]? = some b ∨ (k' = k ∧ i = (f k).length ∧ b = a) := by
  by_cases hk : k' = k
  · subst hk
    rw [Function.update_self] at h
    exact (getElem?_concat_some h).imp_right fun hnew => ⟨rfl, hnew⟩
  · rw [Function.update_of_ne hk] at h
    exact .inl h

end Table

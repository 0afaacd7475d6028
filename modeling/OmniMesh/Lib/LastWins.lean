import Mathlib.Data.List.Basic

/-!
# The last entry under a key wins

A stream puts entries, each under its key, and clears everything (`none`). What counts in the end are the
entries that nothing later replaces or clears, in the order in which they were put.
-/

namespace LastWins

variable {κ ε : Type*} [DecidableEq κ] (key : ε → κ)

/-- The event replaces or clears what was put under `k`. -/
def overrides (k : κ) : Option ε → Bool
  | some e => key e = k
  | none => true

def latest : List (Option ε) → List ε
  | [] => []
  | some e :: es => if es.any (overrides key (key e)) then latest es else e :: latest es
  | none :: es => latest es

/-- The list shows what the stream has left behind, as far as `keep` looks. -/
def Shows (keep : ε → Bool) (l : List ε) (es : List (Option ε)) : Prop :=
  l.filter keep = (latest key es).filter keep

variable {key} {keep q : ε → Bool} {l : List ε} {es : List (Option ε)} {e : ε}

theorem latest_concat_none : latest key (es ++ [none]) = [] := by
  induction es with
  | nil => rfl
  | cons e es ih =>
      cases e with
      | none => exact ih
      | some e => simp [latest, overrides, ih]

theorem latest_concat_some :
    latest key (es ++ [some e]) = (latest key es).filter (fun x => key x ≠ key e) ++ [e] := by
  induction es with
  | nil => rfl
  | cons x es ih =>
      cases x with
      | none => exact ih
      | some x =>
          simp only [List.cons_append, latest, List.any_append, List.any_cons, List.any_nil, ih, overrides]
          by_cases hold : es.any (overrides key (key x))
          · simp [hold]
          · by_cases hx : key e = key x
            · simp [hold, hx]
            · simp [hold, hx, Ne.symm hx]

theorem not_overridden {es' : List (Option ε)} (h : es'.any (overrides key (key e)) = false) {x : ε}
    (hx : x ∈ latest key es') : key x ≠ key e := by
  induction es' with
  | nil => cases hx
  | cons y es' ih =>
      rw [List.any_cons, Bool.or_eq_false_iff] at h
      cases y with
      | none => cases h.1
      | some y =>
          simp only [latest] at hx
          split at hx
          · exact ih h.2 hx
          · rcases List.mem_cons.mp hx with rfl | hx
            · exact of_decide_eq_false h.1
            · exact ih h.2 hx

theorem nodup_latest : ((latest key es).map key).Nodup := by
  induction es with
  | nil => exact .nil
  | cons x es ih =>
      cases x with
      | none => exact ih
      | some x =>
          simp only [latest]
          split
          · exact ih
          · rename_i hold
            rw [List.map_cons, List.nodup_cons]
            refine ⟨fun hmem => ?_, ih⟩
            obtain ⟨y, hy, hk⟩ := List.mem_map.mp hmem
            exact not_overridden (Bool.not_eq_true _ ▸ hold) hy hk

/-- When what holds of an entry holds of the later ones, it does not matter that the last one wins. -/
theorem exists_latest_iff {p : ε → Prop} {k : κ} {es : List ε} (hp : es.Pairwise fun x y => p x → p y) :
    (∃ x ∈ latest key (es.map some), key x = k ∧ p x) ↔ ∃ x ∈ es, key x = k ∧ p x := by
  induction es with
  | nil => exact Iff.rfl
  | cons e es ih =>
      obtain ⟨hlater, hp⟩ := List.pairwise_cons.mp hp
      simp only [List.map_cons, latest]
      split
      · rename_i hold
        rw [ih hp]
        constructor
        · rintro ⟨x, hx, h⟩
          exact ⟨x, List.mem_cons_of_mem e hx, h⟩
        · rintro ⟨x, hx, hk, hpx⟩
          rcases List.mem_cons.mp hx with rfl | hx
          · obtain ⟨event, hevent, hover⟩ := List.any_eq_true.mp hold
            obtain ⟨y, hy, rfl⟩ := List.mem_map.mp hevent
            exact ⟨y, hy, (of_decide_eq_true hover).trans hk, hlater y hy hpx⟩
          · exact ⟨x, hx, hk, hpx⟩
      · simp only [List.mem_cons, or_and_right, exists_or, exists_eq_left]
        exact or_congr_right (ih hp)

/-! ## Keeping a list in step with the stream -/

theorem shows_nil : Shows key keep [] [] := rfl

theorem Shows.put (h : Shows key keep l es) (e : ε) :
    Shows key keep (l.filter (fun x => key x ≠ key e) ++ [e]) (es ++ [some e]) := by
  rw [Shows, latest_concat_some, List.filter_append, List.filter_append, List.filter_filter,
    List.filter_filter]
  simp only [Bool.and_comm (keep _)]
  rw [← List.filter_filter, ← List.filter_filter, h]

theorem shows_clear : Shows key keep [] (es ++ [none]) := by
  rw [Shows, latest_concat_none]

/-- What `keep` does not look at may be thrown away. -/
theorem Shows.prune (h : Shows key keep l es) (hq : ∀ e, keep e → q e) :
    Shows key keep (l.filter q) es := by
  rw [Shows, List.filter_filter, ← h]
  refine List.filter_congr fun e _ => ?_
  cases hk : keep e with
  | false => rfl
  | true => simp [hq e hk]

end LastWins

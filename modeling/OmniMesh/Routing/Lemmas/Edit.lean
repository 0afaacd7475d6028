import OmniMesh.Routing.Edit
import OmniMesh.Routing.Lemmas.Shortest
import OmniMesh.Routing.Lemmas.Router

/-!
# What an edit leaves
-/

namespace OmniMesh.Routing
open OmniMesh.Core LabelSearch

namespace RouteGraph

variable {g : RouteGraph} {a b u v start target : PeerId} {m : LinkMetrics} {p : List PeerId} {w : ℚ}

theorem getLink_removeLink :
    (g.removeLink a b).getLink u v = if u = a ∧ v = b then none else g.getLink u v := by
  unfold removeLink
  cases ha : g.edges.lookup a with
  | none =>
      by_cases hu : u = a
      · subst hu
        simp [getLink, ha]
      · simp [hu]
  | some links =>
      by_cases hu : u = a
      · subst hu
        have hnew : (links.erase b).lookup v = if v = b then none else links.lookup v := by
          by_cases hv : v = b
          · subst hv
            simp
          · rw [AList.lookup_erase_ne hv, if_neg hv]
        by_cases hempty : (links.erase b).entries.isEmpty
        · -- the last link is gone, and with it the entry of its source
          have hnil : links.erase b = ∅ := AList.ext (List.isEmpty_iff.mp hempty)
          rw [hnil, AList.lookup_empty] at hnew
          simpa [hempty, getLink, ha] using hnew
        · simpa [hempty, getLink, ha] using hnew
      · by_cases hempty : (links.erase b).entries.isEmpty
        · simp [hempty, getLink, hu]
        · simp [hempty, getLink, hu]

/-- No source is kept without a link. -/
def Trim (g : RouteGraph) : Prop := ∀ u links, g.edges.lookup u = some links → links ≠ ∅

theorem new_trim : new.Trim := fun _ _ h => by cases h

theorem Trim.addLink (h : g.Trim) : (g.addLink a b m).Trim := by
  intro u links hl
  by_cases hu : u = a
  · subst hu
    simp only [RouteGraph.addLink, AList.lookup_insert, Option.some.injEq] at hl
    rintro rfl
    have hmem : b ∈ (∅ : Map PeerId LinkMetrics) := hl ▸ AList.mem_insert _ |>.mpr (.inl rfl)
    exact AList.notMem_empty b hmem
  · rw [RouteGraph.addLink, AList.lookup_insert_ne hu] at hl
    exact h u links hl

theorem Trim.removeLink (h : g.Trim) : (g.removeLink a b).Trim := by
  unfold RouteGraph.removeLink
  split
  · exact h
  · rename_i neighbours hn
    dsimp only
    split
    · intro u links hl
      by_cases hu : u = a
      · subst hu
        rw [AList.lookup_erase] at hl
        cases hl
      · rw [AList.lookup_erase_ne hu] at hl
        exact h u links hl
    · rename_i hne
      intro u links hl
      by_cases hu : u = a
      · subst hu
        rw [AList.lookup_insert, Option.some.injEq] at hl
        rintro rfl
        simp [hl] at hne
      · rw [AList.lookup_insert_ne hu] at hl
        exact h u links hl

/-! ## Routes without a link -/

theorem routeCost_of_removeLink (h : (g.removeLink a b).routeCost p = some w) : g.routeCost p = some w := by
  cases p with
  | nil => cases h
  | cons u p =>
      induction p generalizing u w with
      | nil => exact h
      | cons v p ih =>
          obtain ⟨m, w', hm, hw', rfl⟩ := routeCost_cons_cons h
          rw [getLink_removeLink] at hm
          split at hm
          · cases hm
          · exact routeCost_cons hm (ih v hw')

theorem routeCost_removeLink (h : g.routeCost p = some w) (hnot : ¬ [a, b] <:+: p) :
    (g.removeLink a b).routeCost p = some w := by
  cases p with
  | nil => cases h
  | cons u p =>
      induction p generalizing u w with
      | nil => exact h
      | cons v p ih =>
          obtain ⟨m, w', hm, hw', rfl⟩ := routeCost_cons_cons h
          have hlink : (g.removeLink a b).getLink u v = some m := by
            rw [getLink_removeLink, if_neg, hm]
            rintro ⟨rfl, rfl⟩
            exact hnot ⟨[], p, rfl⟩
          exact routeCost_cons hlink (ih v hw' fun hin => hnot (List.infix_cons hin))

theorem Nonneg.removeLink (h : g.Nonneg) : (g.removeLink a b).Nonneg := by
  intro u v m hm
  rw [getLink_removeLink] at hm
  split at hm
  · cases hm
  · exact h u v m hm

theorem Finds.optimal {route : Option (List PeerId)} (hg : g.Nonneg) (h : g.Finds start target route) :
    Phase.Optimal g start target (.done route) := by
  obtain ⟨choices, hr⟩ := h
  exact run_optimal hg hr

theorem exists_finds (hg : g.Nonneg) (hw : g.WalkCost start target w) (hlt : w < f64Max) :
    ∃ path, g.Finds start target (some path) := by
  obtain ⟨choices, q, hr, route, rfl⟩ :=
    Lts.Ends.exists_run step_progress (ends_of_nonneg hg start target)
  cases route with
  | none => exact absurd (run_optimal hg hr w hw.route) (not_le.mpr hlt)
  | some path => exact ⟨path, choices, hr⟩

end RouteGraph

end OmniMesh.Routing

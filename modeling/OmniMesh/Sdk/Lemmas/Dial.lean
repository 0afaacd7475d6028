import OmniMesh.Sdk.Dial

/-!
# Progress of dialling
-/

namespace OmniMesh.Sdk.Mesh
open OmniMesh.Transport (listenerCapacity)

variable {ν : Type} [DecidableEq ν] [Fintype ν] {s t : Mesh ν} {n target : ν} {d : Dialer ν}

/-! ## The nodes that are dialling -/

theorem mem_dialers : n ∈ s.dialers target ↔ (s n).lock = .dialing target := by
  simp [dialers]

/-- A node that dials `target` both before and after a change, or neither, leaves the dialers alone. -/
theorem dialers_update_congr (h : d.lock = .dialing target ↔ (s n).lock = .dialing target) :
    dialers (Function.update s n d) target = s.dialers target := by
  ext m
  rw [mem_dialers, mem_dialers]
  by_cases hm : m = n
  · subst hm
    rw [Function.update_self]
    exact h
  · rw [Function.update_of_ne hm]

theorem dialers_update_dialing (hd : d.lock = .dialing target) :
    dialers (Function.update s n d) target = insert n (s.dialers target) := by
  ext m
  rw [Finset.mem_insert, mem_dialers, mem_dialers]
  by_cases hm : m = n
  · subst hm
    rw [Function.update_self]
    exact iff_of_true hd (.inl rfl)
  · rw [Function.update_of_ne hm]
    exact ⟨.inr, fun h => h.resolve_left hm⟩

theorem dialers_update_free (hd : d.lock = .free) :
    dialers (Function.update s n d) target = (s.dialers target).erase n := by
  ext m
  rw [Finset.mem_erase, mem_dialers, mem_dialers]
  by_cases hm : m = n
  · subst hm
    rw [Function.update_self, hd]
    exact iff_of_false nofun fun h => h.1 rfl
  · rw [Function.update_of_ne hm]
    exact ⟨fun h => ⟨hm, h⟩, And.right⟩

omit [Fintype ν] in
theorem update_listener (hl : d.listening = (s n).listening) (hi : d.incoming = (s n).incoming) (m : ν) :
    (Function.update s n d m).listening = (s m).listening ∧
      (Function.update s n d m).incoming = (s m).incoming := by
  by_cases hm : m = n
  · subst hm
    rw [Function.update_self]
    exact ⟨hl, hi⟩
  · rw [Function.update_of_ne hm]
    exact ⟨rfl, rfl⟩

/-! ## The invariant -/

/-- A parked accept loop keeps no call waiting, and a listener has room for the connections on their
way. -/
structure Clear (s : Mesh ν) : Prop where
  unparked : ∀ n, Parked (s n) → ¬ Unfinished (s n)
  room : ∀ target, (s target).listening →
    (s target).incoming + (s.dialers target).card ≤ listenerCapacity

theorem init_clear (listening : ν → Bool) : Clear (init listening) where
  unparked n h := by
    cases h.1
  room target _ := by
    have : (init listening).dialers target = ∅ := by
      ext m
      rw [mem_dialers]
      exact iff_of_false (nofun : Lock.free ≠ .dialing target) (Finset.notMem_empty m)
    rw [this]
    exact Nat.zero_le _

theorem Clear.unparked_update (h : Clear s) (hd : Parked d → ¬ Unfinished d) (m : ν) :
    Parked (Function.update s n d m) → ¬ Unfinished (Function.update s n d m) := by
  by_cases hm : m = n
  · subst hm
    rw [Function.update_self]
    exact hd
  · rw [Function.update_of_ne hm]
    exact h.unparked m

/-- A change of one node that does not touch dialling, and lets no more connections in. -/
theorem Clear.update (h : Clear s) (hd : Parked d → ¬ Unfinished d)
    (hlock : ∀ target, d.lock = .dialing target ↔ (s n).lock = .dialing target)
    (hl : d.listening → (s n).listening) (hi : d.incoming ≤ (s n).incoming) :
    Clear (Function.update s n d) where
  unparked := h.unparked_update hd
  room target := by
    rw [dialers_update_congr (hlock target)]
    by_cases ht : target = n
    · subst ht
      rw [Function.update_self]
      intro hlis
      exact (Nat.add_le_add_right hi _).trans (h.room target (hl hlis))
    · rw [Function.update_of_ne ht]
      exact h.room target

theorem Clear.acquire (h : Clear s) (hfree : (s n).lock = .free) {waiting : List ν}
    (hroom : (s target).listening → (s target).incoming + (s.dialers target).card < listenerCapacity) :
    Clear (Function.update s n { s n with lock := .dialing target, waiting }) where
  unparked := h.unparked_update fun hp => by cases hp.1
  room target' := by
    have hidle : ∀ target, (s n).lock ≠ .dialing target := by
      intro target
      rw [hfree]
      exact nofun
    obtain ⟨hlis', hin'⟩ := update_listener (s := s) (n := n)
      (d := { s n with lock := .dialing target, waiting }) rfl rfl target'
    rw [hlis', hin']
    intro hlis
    by_cases ht : target' = target
    · subst ht
      rw [dialers_update_dialing rfl, Finset.card_insert_of_notMem]
      · exact hroom hlis
      · exact fun hm => hidle target' (mem_dialers.mp hm)
    · rw [dialers_update_congr (iff_of_false (fun he => ht (Lock.dialing.inj he).symm) (hidle target'))]
      exact h.room target' hlis

def release (s : Mesh ν) (n : ν) : Mesh ν := Function.update s n { s n with lock := .free }

omit [Fintype ν] in
theorem release_listener (m : ν) :
    (s.release n m).listening = (s m).listening ∧ (s.release n m).incoming = (s m).incoming :=
  update_listener (d := { s n with lock := .free }) rfl rfl m

theorem Clear.release (h : Clear s) : Clear (s.release n) where
  unparked := h.unparked_update fun hp => by cases hp.1
  room target := by
    rw [(release_listener target).1, (release_listener target).2]
    intro hl
    have hle : ((s.release n).dialers target).card ≤ (s.dialers target).card := by
      rw [Mesh.release, dialers_update_free rfl]
      exact Finset.card_erase_le
    exact (Nat.add_le_add_left hle _).trans (h.room target hl)

theorem Clear.release_room (h : Clear s) (hlock : (s n).lock = .dialing target)
    (hl : (s target).listening) :
    (s target).incoming + ((s.release n).dialers target).card < listenerCapacity := by
  have hroom := h.room target hl
  rw [Mesh.release, dialers_update_free rfl]
  have := Finset.card_erase_lt_of_mem (mem_dialers.mpr hlock)
  omega

theorem Clear.arrive (h : Clear s)
    (hroom : (s target).incoming + (s.dialers target).card < listenerCapacity) :
    Clear (Function.update s target { s target with incoming := (s target).incoming + 1 }) where
  unparked := h.unparked_update fun hp => by cases hp.2.2
  room target' := by
    rw [dialers_update_congr (d := { s target with incoming := (s target).incoming + 1 }) Iff.rfl]
    by_cases ht : target' = target
    · subst ht
      rw [Function.update_self]
      intro _
      dsimp only
      omega
    · rw [Function.update_of_ne ht]
      exact h.room target'

theorem Clear.step {act} (h : Clear s) (hu : s.Unparked act) (hs : s.step act = some t) : Clear t := by
  cases act with
  | call n target =>
      cases hs
      exact h.update (fun hp => absurd hp hu) (fun _ => Iff.rfl) id le_rfl
  | acquire n target =>
      simp only [Mesh.step] at hs
      split at hs
      · rename_i hfree
        cases hs
        exact h.acquire hfree.1 hu
      · cases hs
  | dial n =>
      simp only [Mesh.step] at hs
      split at hs
      · rename_i target hlock
        split at hs
        · cases hs
          exact h.release
        · rename_i hl
          split at hs <;> cases hs
          have hroom := h.release_room hlock (by simpa using hl)
          have hin : (s.release n target).incoming = (s target).incoming := (release_listener target).2
          rw [← hin] at hroom ⊢
          exact h.release.arrive hroom
      · cases hs
  | acceptLock n =>
      simp only [Mesh.step] at hs
      split at hs
      · rename_i hfree
        cases hs
        refine h.update ?_ (fun _ => iff_of_false nofun ?_) id le_rfl
        · rintro ⟨-, hl, hi⟩ hun
          refine absurd hi (Nat.ne_of_gt (hu ?_ hl))
          exact hun.imp id fun ⟨_, he⟩ => by cases he
        · rw [hfree.1]
          exact nofun
      · cases hs
  | acceptConn n =>
      simp only [Mesh.step] at hs
      split at hs
      · rename_i hacc
        have hlock : ∀ target, Lock.free = .dialing target ↔ (s n).lock = .dialing target := by
          intro target
          rw [hacc]
          exact iff_of_false nofun nofun
        split at hs
        · cases hs
          exact h.update (fun hp => by cases hp.1) hlock id le_rfl
        · split at hs <;> cases hs
          exact h.update (fun hp => by cases hp.1) hlock id (Nat.sub_le _ _)
      · cases hs
  | stop n =>
      cases hs
      by_cases hacc : (s n).lock = .accepting
      · simp only [hacc, if_true]
        refine h.update (fun hp => by cases hp.1) (fun _ => iff_of_false nofun ?_) id le_rfl
        rw [hacc]
        exact nofun
      · simp only [if_neg hacc]
        exact h.update (fun hp => absurd hp.1 hacc) (fun _ => Iff.rfl) id le_rfl
  | close n =>
      simp only [Mesh.step] at hs
      split at hs
      · cases hs
        exact h.update (fun hp => by cases hp.2.1) (fun _ => Iff.rfl) nofun (Nat.zero_le _)
      · cases hs

theorem Clear.progress (h : Clear s) (hun : Unfinished (s n)) :
    ∃ act : DialAct ν, act.isTask ∧ s.step act ≠ none := by
  cases hlock : (s n).lock with
  | free =>
      rcases hun with hw | ⟨target, ht⟩
      · obtain ⟨target, rest, hw⟩ := List.exists_cons_of_ne_nil hw
        refine ⟨.acquire n target, rfl, ?_⟩
        simp [Mesh.step, hlock, hw]
      · rw [hlock] at ht
        cases ht
  | accepting =>
      refine ⟨.acceptConn n, rfl, ?_⟩
      by_cases hl : (s n).listening
      · have hi : 0 < (s n).incoming :=
          Nat.pos_of_ne_zero fun h0 => h.unparked n ⟨hlock, hl, h0⟩ hun
        simp [Mesh.step, hlock, hl, hi]
      · simp [Mesh.step, hlock, hl]
  | dialing target =>
      refine ⟨.dial n, rfl, ?_⟩
      by_cases hl : (s target).listening
      · have hpos : 0 < (s.dialers target).card := Finset.card_pos.mpr ⟨n, mem_dialers.mpr hlock⟩
        have hi : (s target).incoming < listenerCapacity := by
          have := h.room target hl
          omega
        simp [Mesh.step, hlock, hl, hi]
      · simp [Mesh.step, hlock, hl]

theorem Clear.not_deadlocked (h : Clear s) : ¬ s.Deadlocked := by
  rintro ⟨⟨n, hun⟩, hstuck⟩
  obtain ⟨act, htask, hstep⟩ := h.progress hun
  exact hstep (hstuck act htask)

end OmniMesh.Sdk.Mesh

import OmniMesh.Transport.Pool

/-!
# The size of the pool
-/

namespace OmniMesh.Transport
open OmniMesh.Core

namespace ConnectionPool

variable {pool : ConnectionPool} {peer peer' : PeerId} {f : ConnectionInfo → ConnectionInfo}

theorem mem_modify : peer' ∈ (pool.modify peer f).connections ↔ peer' ∈ pool.connections := by
  unfold modify
  split
  · rename_i info hl
    have hmem : peer ∈ pool.connections := AList.lookup_isSome.mp (Option.isSome_of_eq_some hl)
    rw [AList.mem_insert]
    constructor
    · rintro (rfl | h)
      · exact hmem
      · exact h
    · exact .inr
  · rfl

theorem modify_maxConnections : (pool.modify peer f).maxConnections = pool.maxConnections := by
  unfold modify
  split <;> rfl

end ConnectionPool

namespace SharedPool

variable {s t : SharedPool} {act : PoolAct} {peer : PeerId}

/-- What a step can do. -/
inductive Moves (s : SharedPool) : PoolAct → SharedPool → Prop
  | passed {task info} : task ∉ s.inserts → s.pool.len < s.pool.maxConnections →
      Moves s (.check task info) { s with inserts := s.inserts.insert task (.checked info) }
  | stopped {task info} : task ∉ s.inserts → s.pool.maxConnections ≤ s.pool.len →
      Moves s (.check task info) { s with inserts := s.inserts.insert task .full }
  | inserted {task info} : s.inserts.lookup task = some (.checked info) →
      Moves s (.insert task)
        { s with
          pool := { s.pool with connections := s.pool.connections.insert info.peerId info }
          inserts := s.inserts.insert task (.returned (.ok ())) }
  | refused {task e} : s.inserts.lookup task = some .full →
      Moves s (.refuse task) { s with inserts := s.inserts.insert task (.returned (.error e)) }
  | other {act : PoolAct} {pool : ConnectionPool} : (∀ task info, act ≠ .check task info) →
      pool.maxConnections = s.pool.maxConnections →
      (∀ peer ∈ pool.connections, peer ∈ s.pool.connections) → Moves s act { s with pool }

theorem step_moves (hs : s.step act = some t) : s.Moves act t := by
  cases act with
  | check task info =>
      simp only [step] at hs
      split at hs
      · cases hs
      · rename_i hnew
        split at hs
        · rename_i hfull
          cases hs
          exact .stopped hnew hfull
        · rename_i hroom
          cases hs
          exact .passed hnew (Nat.lt_of_not_le hroom)
  | insert task =>
      simp only [step] at hs
      split at hs
      · rename_i info hl
        cases hs
        exact .inserted hl
      · cases hs
  | refuse task =>
      simp only [step] at hs
      split at hs
      · rename_i hl
        cases hs
        exact .refused hl
      · cases hs
  | remove peer =>
      cases hs
      exact .other (by simp) rfl fun p hp => (AList.mem_erase.mp hp).2
  | updateState peer state =>
      cases hs
      exact .other (by simp) ConnectionPool.modify_maxConnections fun _ => ConnectionPool.mem_modify.mp
  | recordBytesSent peer bytes =>
      cases hs
      exact .other (by simp) ConnectionPool.modify_maxConnections fun _ => ConnectionPool.mem_modify.mp
  | recordBytesReceived peer bytes =>
      cases hs
      exact .other (by simp) ConnectionPool.modify_maxConnections fun _ => ConnectionPool.mem_modify.mp

theorem step_maxConnections (hs : s.step act = some t) :
    t.pool.maxConnections = s.pool.maxConnections := by
  cases step_moves hs with
  | passed => rfl
  | stopped => rfl
  | inserted => rfl
  | refused => rfl
  | other _ hmax _ => exact hmax

/-! ## Claimed peers -/

theorem mem_claimed : peer ∈ s.claimed ↔ peer ∈ s.pool.connections ∨
    ∃ task info, s.inserts.lookup task = some (.checked info) ∧ info.peerId = peer := by
  simp only [claimed, List.mem_toFinset, List.mem_append, List.mem_filterMap, AList.mem_keys]
  refine or_congr Iff.rfl ⟨?_, ?_⟩
  · rintro ⟨⟨task, i⟩, hmem, hp⟩
    cases i with
    | checked info => exact ⟨task, info, AList.mem_lookup_iff.mpr hmem, Option.some.inj hp⟩
    | full => cases hp
    | returned => cases hp
  · rintro ⟨task, info, hl, hp⟩
    exact ⟨⟨task, .checked info⟩, AList.mem_lookup_iff.mp hl, congrArg some hp⟩

theorem len_le_claimed : s.pool.len ≤ s.claimed.card := by
  rw [ConnectionPool.len, ← List.toFinset_card_of_nodup s.pool.connections.keys_nodup]
  apply Finset.card_le_card
  intro peer hp
  exact mem_claimed.mpr (.inl (AList.mem_keys.mpr (List.mem_toFinset.mp hp)))

/-- An entry that replaces the one of a task claims no more peers than it names. -/
theorem checked_of_insert {task task' info} {i : Insertion}
    (h : (s.inserts.insert task i).lookup task' = some (.checked info)) :
    i = .checked info ∨ s.inserts.lookup task' = some (.checked info) := by
  by_cases ht : task' = task
  · subst ht
    rw [AList.lookup_insert] at h
    exact .inl (Option.some.inj h)
  · rw [AList.lookup_insert_ne ht] at h
    exact .inr h

/-- Only a check that finds room claims a new peer. -/
theorem claimed_step (hs : s.step act = some t) (hp : peer ∈ t.claimed) :
    peer ∈ s.claimed ∨ ∃ task info, act = .check task info ∧ task ∉ s.inserts ∧
      s.pool.len < s.pool.maxConnections ∧ info.peerId = peer := by
  rcases mem_claimed.mp hp with hmem | ⟨task', info', hl, hpeer⟩
  · cases step_moves hs with
    | passed => exact .inl (mem_claimed.mpr (.inl hmem))
    | stopped => exact .inl (mem_claimed.mpr (.inl hmem))
    | refused => exact .inl (mem_claimed.mpr (.inl hmem))
    | other _ _ hsub => exact .inl (mem_claimed.mpr (.inl (hsub peer hmem)))
    | @inserted task info hl =>
        rcases (AList.mem_insert _).mp hmem with rfl | hmem
        · exact .inl (mem_claimed.mpr (.inr ⟨task, info, hl, rfl⟩))
        · exact .inl (mem_claimed.mpr (.inl hmem))
  · have hold : s.inserts.lookup task' = some (.checked info') → peer ∈ s.claimed :=
      fun h => mem_claimed.mpr (.inr ⟨task', info', h, hpeer⟩)
    cases step_moves hs with
    | @passed task info hnew hroom =>
        rcases checked_of_insert hl with hi | hl
        · cases hi
          exact .inr ⟨task, _, rfl, hnew, hroom, hpeer⟩
        · exact .inl (hold hl)
    | stopped => exact .inl (hold ((checked_of_insert hl).resolve_left (by simp)))
    | inserted => exact .inl (hold ((checked_of_insert hl).resolve_left (by simp)))
    | refused => exact .inl (hold ((checked_of_insert hl).resolve_left (by simp)))
    | other => exact .inl (hold hl)

/-! ## Runs -/

theorem claimed_card_step (h : s.claimed.card ≤ s.pool.maxConnections) (hroomy : s.Roomy act)
    (hs : s.step act = some t) : t.claimed.card ≤ t.pool.maxConnections := by
  rw [step_maxConnections hs]
  by_cases hnew : ∃ task info, act = .check task info ∧ task ∉ s.inserts ∧
      s.pool.len < s.pool.maxConnections
  · obtain ⟨task, info, rfl, htask, hroom⟩ := hnew
    refine (Finset.card_le_card fun peer hp => ?_).trans (hroomy htask hroom)
    rcases claimed_step hs hp with hp | ⟨_, _, he, -, -, rfl⟩
    · exact Finset.mem_insert_of_mem hp
    · cases he
      exact Finset.mem_insert_self ..
  · refine (Finset.card_le_card fun peer hp => ?_).trans h
    refine (claimed_step hs hp).resolve_right ?_
    rintro ⟨task, info, he, htask, hroom, -⟩
    exact hnew ⟨task, info, he, htask, hroom⟩

theorem run_len_le {maxConnections acts} (hm : Lts.Meets step Roomy (init maxConnections) acts)
    (hr : Lts.run step (init maxConnections) acts = some s) : s.pool.len ≤ s.pool.maxConnections := by
  have hinit : (init maxConnections).claimed.card ≤ (init maxConnections).pool.maxConnections :=
    Nat.zero_le _
  exact len_le_claimed.trans
    (Lts.Meets.invariant (I := fun s => s.claimed.card ≤ s.pool.maxConnections)
      (fun _ _ _ h hroomy hs => claimed_card_step h hroomy hs) hinit hm hr)

/-- The inserts that are past their check may all go on. -/
theorem exists_inserted (tasks : List ℕ) :
    ∃ more u, Lts.Meets step Roomy s more ∧ Lts.run step s more = some u ∧
      u.pool.maxConnections = s.pool.maxConnections ∧
      (∀ peer ∈ s.pool.connections, peer ∈ u.pool.connections) ∧
      ∀ task ∈ tasks, ∀ info, s.inserts.lookup task = some (.checked info) →
        info.peerId ∈ u.pool.connections := by
  induction tasks generalizing s with
  | nil => exact ⟨[], s, trivial, rfl, rfl, fun _ h => h, by simp⟩
  | cons task tasks ih =>
      by_cases hl : ∃ info, s.inserts.lookup task = some (.checked info)
      · obtain ⟨info, hl⟩ := hl
        obtain ⟨more, u, hm, hr, hmax, hmem, hall⟩ := ih (s := { s with
          pool := { s.pool with connections := s.pool.connections.insert info.peerId info }
          inserts := s.inserts.insert task (.returned (.ok ())) })
        have hstep : s.step (.insert task) = some { s with
            pool := { s.pool with connections := s.pool.connections.insert info.peerId info }
            inserts := s.inserts.insert task (.returned (.ok ())) } := by
          simp only [step, hl]
        have hinfo : info.peerId ∈ u.pool.connections :=
          hmem _ ((AList.mem_insert _).mpr (.inl rfl))
        refine ⟨.insert task :: more, u, .cons trivial hstep hm, by rw [Lts.run, hstep]; exact hr, hmax,
          fun peer hp => hmem peer ((AList.mem_insert _).mpr (.inr hp)), fun task' ht info' hl' => ?_⟩
        by_cases he : task' = task
        · subst he
          rw [hl] at hl'
          cases hl'
          exact hinfo
        · refine hall task' ((List.mem_cons.mp ht).resolve_left he) info' ?_
          rw [AList.lookup_insert_ne he]
          exact hl'
      · obtain ⟨more, u, hm, hr, hmax, hmem, hall⟩ := ih (s := s)
        refine ⟨more, u, hm, hr, hmax, hmem, fun task' ht info' hl' => ?_⟩
        rcases List.mem_cons.mp ht with rfl | ht
        · exact absurd ⟨info', hl'⟩ hl
        · exact hall task' ht info' hl'

/-- Peers beyond the limit that are claimed can come into the pool. -/
theorem exists_overfull (h : s.pool.maxConnections < s.claimed.card) :
    ∃ more u, Lts.Meets step Roomy s more ∧ Lts.run step s more = some u ∧
      u.pool.maxConnections < u.pool.len := by
  obtain ⟨more, u, hm, hr, hmax, hmem, hall⟩ := exists_inserted (s := s) s.inserts.keys
  refine ⟨more, u, hm, hr, hmax ▸ h.trans_le ?_⟩
  rw [ConnectionPool.len, ← List.toFinset_card_of_nodup u.pool.connections.keys_nodup]
  refine Finset.card_le_card fun peer hp => List.mem_toFinset.mpr (AList.mem_keys.mp ?_)
  rcases mem_claimed.mp hp with hp | ⟨task, info, hl, rfl⟩
  · exact hmem peer hp
  · exact hall task (AList.mem_keys.mp (AList.lookup_isSome.mp (Option.isSome_of_eq_some hl))) info hl

theorem claimed_of_not_roomy (hroomy : ¬ s.Roomy act) (hs : s.step act = some t) :
    t.pool.maxConnections < t.claimed.card := by
  cases act with
  | check task info =>
      simp only [Roomy, not_forall, Nat.not_le] at hroomy
      obtain ⟨hnew, hroom, hcard⟩ := hroomy
      cases step_moves hs with
      | passed =>
          refine hcard.trans_le (Finset.card_le_card fun peer hp => ?_)
          rcases Finset.mem_insert.mp hp with rfl | hp
          · exact mem_claimed.mpr (.inr ⟨task, info, AList.lookup_insert _, rfl⟩)
          · rcases mem_claimed.mp hp with hp | ⟨task', info', hl, hp⟩
            · exact mem_claimed.mpr (.inl hp)
            · have hne : task' ≠ task := by
                rintro rfl
                exact hnew (AList.lookup_isSome.mp (Option.isSome_of_eq_some hl))
              exact mem_claimed.mpr (.inr ⟨task', info', by rw [AList.lookup_insert_ne hne]; exact hl, hp⟩)
      | stopped _ hfull => exact absurd hfull (Nat.not_le.mpr hroom)
      | other hne => exact absurd rfl (hne task info)
  | insert => exact absurd trivial hroomy
  | refuse => exact absurd trivial hroomy
  | remove => exact absurd trivial hroomy
  | updateState => exact absurd trivial hroomy
  | recordBytesSent => exact absurd trivial hroomy
  | recordBytesReceived => exact absurd trivial hroomy

end SharedPool

end OmniMesh.Transport

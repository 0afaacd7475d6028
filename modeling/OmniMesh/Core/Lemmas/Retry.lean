import Mathlib.Order.Bounds.Defs
import Mathlib.Tactic.Ring
import OmniMesh.Core.Retry

/-!
# Runs of `retry_async`
-/

namespace OmniMesh.Core

variable {δ α : Type} {policy : RetryPolicy δ} {operation : Nat → Result α} {i k : Nat}

/-! ## Outcomes -/

theorem exists_retryable (h : ¬ Final policy operation i) :
    ∃ err, operation i = .error err ∧ err.isRetryable = true := by
  cases ho : operation i with
  | ok value => exact absurd (.inl ⟨value, ho⟩) h
  | error err =>
      refine ⟨err, rfl, ?_⟩
      by_contra hr
      exact h (.inr (.inl ⟨err, ho, by simpa using hr⟩))

theorem lt_of_not_final (h : ¬ Final policy operation i) (hle : i ≤ policy.maxRetries.toNat) :
    i < policy.maxRetries.toNat :=
  lt_of_le_of_ne hle fun hi => h (.inr (.inr hi))

theorem exists_least_final (policy : RetryPolicy δ) (operation : Nat → Result α) :
    ∃ k, IsLeast {k | Final policy operation k} k := by
  classical
  have hex : ∃ k, Final policy operation k := ⟨_, .inr (.inr rfl)⟩
  exact ⟨Nat.find hex, Nat.find_spec hex, fun _ hj => Nat.find_min' hex hj⟩

/-! ## The loop -/

variable [Interval δ] {current next d : δ}

theorem retryLoop_final (h : Final policy operation i) :
    retryLoop policy operation i current = ⟨1, [], some (operation i)⟩ := by
  rw [retryLoop]
  rcases h with ⟨value, hv⟩ | ⟨err, he, hr⟩ | hmax
  · rw [hv]
  · simp [he, hr]
  · cases ho : operation i with
    | ok value => rfl
    | error err => simp [hmax]

theorem retryLoop_panic (h : ¬ Final policy operation i) (hlt : i < policy.maxRetries.toNat)
    (hnext : Interval.scale current policy.multiplier = none) :
    retryLoop policy operation i current = ⟨1, [current], none⟩ := by
  obtain ⟨err, he, hr⟩ := exists_retryable h
  rw [retryLoop]
  simp [he, hr, hlt, RetryPolicy.toBackoff, hnext]

theorem retryLoop_again (h : ¬ Final policy operation i) (hlt : i < policy.maxRetries.toNat)
    (hnext : Interval.scale current policy.multiplier = some next) :
    retryLoop policy operation i current =
      ⟨(retryLoop policy operation (i + 1) (min next policy.maxInterval)).invocations + 1,
        current :: (retryLoop policy operation (i + 1) (min next policy.maxInterval)).sleeps,
        (retryLoop policy operation (i + 1) (min next policy.maxInterval)).result⟩ := by
  obtain ⟨err, he, hr⟩ := exists_retryable h
  rw [retryLoop]
  simp [he, hr, hlt, RetryPolicy.toBackoff, hnext]

/-! ## The intervals -/

/-- The interval of the sleep `i + 1`, when nothing before it panics. -/
def RetryPolicy.interval (self : RetryPolicy δ) : Nat → Option δ
  | 0 => some self.initialInterval
  | i + 1 => (self.interval i).bind fun current =>
      (Interval.scale current self.multiplier).map fun next => min next self.maxInterval

theorem interval_succ (h : policy.interval i = some current) : policy.interval (i + 1) =
    (Interval.scale current policy.multiplier).map fun next => min next policy.maxInterval := by
  rw [RetryPolicy.interval, h, Option.bind_some]

theorem interval_none_of_le (h : policy.interval i = none) (hle : i ≤ k) : policy.interval k = none := by
  induction k, hle using Nat.le_induction with
  | base => exact h
  | succ k _ ih => rw [RetryPolicy.interval, ih, Option.bind_none]

/-- From the invocation `i` on, up to the first outcome that is final. -/
theorem retryLoop_follows (hk : IsLeast {k | Final policy operation k} k) (hle : i ≤ k)
    (hcurrent : policy.interval i = some current) :
    ((policy.interval k).isSome →
      (retryLoop policy operation i current).invocations = k - i + 1 ∧
      (retryLoop policy operation i current).sleeps.length = k - i ∧
      (retryLoop policy operation i current).result = some (operation k)) ∧
    (policy.interval k = none → (retryLoop policy operation i current).result = none) := by
  have hmax : k ≤ policy.maxRetries.toNat := hk.2 (.inr (.inr rfl))
  induction hn : k - i generalizing i current with
  | zero =>
      obtain rfl : i = k := by omega
      rw [retryLoop_final hk.1]
      simp [hcurrent]
  | succ n ih =>
      have hnot : ¬ Final policy operation i := fun hi => absurd (hk.2 hi) (by omega)
      have hlt : i < policy.maxRetries.toNat := by omega
      have hsucc := interval_succ hcurrent
      cases hnext : Interval.scale current policy.multiplier with
      | none =>
          rw [hnext, Option.map_none] at hsucc
          have hnone := interval_none_of_le hsucc (show i + 1 ≤ k by omega)
          rw [retryLoop_panic hnot hlt hnext]
          simp [hnone]
      | some next =>
          rw [hnext, Option.map_some] at hsucc
          obtain ⟨hsome, hnone⟩ := ih (by omega) hsucc (by omega)
          rw [retryLoop_again hnot hlt hnext]
          refine ⟨fun h => ?_, hnone⟩
          obtain ⟨hinv, hsleeps, hresult⟩ := hsome h
          simp [hinv, hsleeps, hresult]

theorem retryLoop_sleeps {n} (hle : i ≤ policy.maxRetries.toNat) (hcurrent : policy.interval i = some current)
    (h : (retryLoop policy operation i current).sleeps[n]? = some d) :
    policy.interval (i + n) = some d := by
  induction hm : policy.maxRetries.toNat - i generalizing i current n with
  | zero =>
      have hfinal : Final policy operation i := .inr (.inr (by omega))
      simp [retryLoop_final hfinal] at h
  | succ k ih =>
      by_cases hfinal : Final policy operation i
      · simp [retryLoop_final hfinal] at h
      · have hlt := lt_of_not_final hfinal hle
        cases hnext : Interval.scale current policy.multiplier with
        | none =>
            rw [retryLoop_panic hfinal hlt hnext] at h
            cases n with
            | zero =>
                cases h
                exact hcurrent
            | succ n => simp at h
        | some next =>
            rw [retryLoop_again hfinal hlt hnext] at h
            cases n with
            | zero =>
                cases h
                exact hcurrent
            | succ n =>
                have hsucc := interval_succ hcurrent
                rw [hnext, Option.map_some] at hsucc
                rw [Nat.add_comm n 1, ← Nat.add_assoc]
                exact ih (by omega) hsucc (by simpa using h) (by omega)

theorem retryAsync_eq : retryAsync policy operation = retryLoop policy operation 0 policy.initialInterval := by
  rw [retryAsync]
  split
  · rename_i hzero
    have hfinal : Final policy operation 0 := .inr (.inr (by simp [hzero]))
    rw [retryLoop_final hfinal]
  · rfl

theorem retryAsync_sleeps (h : (retryAsync policy operation).sleeps[i]? = some d) :
    policy.interval i = some d := by
  rw [retryAsync_eq] at h
  simpa using retryLoop_sleeps (Nat.zero_le _) rfl h

theorem retryAsync_sleeps_of_final (h : Final policy operation 0) : (retryAsync policy operation).sleeps = [] := by
  rw [retryAsync_eq, retryLoop_final h]

theorem exists_first_sleep (h : ¬ Final policy operation 0) :
    ∃ d, (retryAsync policy operation).sleeps[0]? = some d := by
  have hlt := lt_of_not_final h (Nat.zero_le _)
  rw [retryAsync_eq]
  cases hnext : Interval.scale policy.initialInterval policy.multiplier with
  | none =>
      rw [retryLoop_panic h hlt hnext]
      exact ⟨_, rfl⟩
  | some next =>
      rw [retryLoop_again h hlt hnext]
      exact ⟨_, rfl⟩

theorem retryAsync_follows_iff (hk : IsLeast {k | Final policy operation k} k) :
    (retryAsync policy operation).Follows operation k ↔ (policy.interval k).isSome := by
  obtain ⟨hsome, hnone⟩ := retryLoop_follows hk (Nat.zero_le k) rfl
  rw [retryAsync_eq]
  constructor
  · intro h
    by_contra hi
    have hresult := hnone (by simpa using hi)
    simp [h.result] at hresult
  · intro h
    obtain ⟨hinv, hsleeps, hresult⟩ := hsome h
    exact ⟨hinv, hsleeps, hresult⟩

/-! ## Intervals that fit -/

/-- Only the first interval can be above the maximum. -/
theorem interval_le_max (hi : 0 < i) (h : policy.interval i = some d) : d ≤ policy.maxInterval := by
  obtain ⟨i, rfl⟩ := Nat.exists_eq_succ_of_ne_zero hi.ne'
  rw [RetryPolicy.interval, Option.bind_eq_some_iff] at h
  obtain ⟨current, -, h⟩ := h
  obtain ⟨next, -, rfl⟩ := Option.map_eq_some_iff.mp h
  exact min_le_right _ _

theorem isSome_interval_succ (h : policy.interval i = some d) :
    (policy.interval (i + 1)).isSome ↔ (Interval.scale d policy.multiplier).isSome := by
  rw [interval_succ h, Option.isSome_map]

/-- With a maximum that can be multiplied, only the first product can panic. -/
theorem isSome_interval_of_max (hmax : (Interval.scale policy.maxInterval policy.multiplier).isSome) :
    (policy.interval k).isSome ↔ k = 0 ∨ (Interval.scale policy.initialInterval policy.multiplier).isSome := by
  have hone : (policy.interval 1).isSome ↔ (Interval.scale policy.initialInterval policy.multiplier).isSome :=
    isSome_interval_succ rfl
  rcases Nat.eq_zero_or_pos k with rfl | hpos
  · simp [RetryPolicy.interval]
  · rw [← hone, or_iff_right hpos.ne']
    induction k, hpos using Nat.le_induction with
    | base => rfl
    | succ k hpos ih =>
        refine Iff.trans ?_ ih
        cases hk : policy.interval k with
        | none => simp [interval_none_of_le hk (Nat.le_succ k)]
        | some current => simp [isSome_interval_succ hk, Interval.scale_of_le (interval_le_max hpos hk) hmax]

theorem isSome_scale_of_scaled {multiplier : F64} (h : (Interval.scaled d multiplier k).isSome) :
    k = 0 ∨ (Interval.scale d multiplier).isSome := by
  induction k with
  | zero => exact .inl rfl
  | succ k ih =>
      cases hproduct : Interval.scaled d multiplier k with
      | none => simp [Interval.scaled, hproduct] at h
      | some product =>
          rcases ih (Option.isSome_of_eq_some hproduct) with rfl | hscale
          · exact .inr h
          · exact .inr hscale

/-- A maximum that cannot be multiplied makes no difference: the intervals are those without it, up to one
that cannot be multiplied either. -/
theorem interval_scaled (hmax : Interval.scale policy.maxInterval policy.multiplier = none) :
    policy.interval k = Interval.scaled policy.initialInterval policy.multiplier k ∨
    ∃ d d', policy.interval k = some d ∧ Interval.scaled policy.initialInterval policy.multiplier k = some d' ∧
      Interval.scale d policy.multiplier = none ∧ Interval.scale d' policy.multiplier = none := by
  induction k with
  | zero => exact .inl rfl
  | succ k ih =>
      rw [RetryPolicy.interval, Interval.scaled]
      rcases ih with heq | ⟨d, d', hd, hd', hnone, hnone'⟩
      · rw [heq]
        cases Interval.scaled policy.initialInterval policy.multiplier k with
        | none => exact .inl rfl
        | some product =>
            cases hnext : Interval.scale product policy.multiplier with
            | none => simp [hnext]
            | some next =>
                rcases le_total next policy.maxInterval with hle | hle
                · simp [hnext, hle]
                · have hnone : Interval.scale next policy.multiplier = none := by
                    by_contra hsome
                    have := Interval.scale_of_le hle (Option.isSome_iff_ne_none.mpr hsome)
                    simp [hmax] at this
                  exact .inr ⟨policy.maxInterval, next, by simp [hnext, hle], by simp [hnext], hmax, hnone⟩
      · simp [hd, hd', hnone, hnone']

theorem isSome_interval_iff : (policy.interval k).isSome ↔
    ((Interval.scale policy.initialInterval policy.multiplier).isSome ∧
      (Interval.scale policy.maxInterval policy.multiplier).isSome) ∨
    (Interval.scaled policy.initialInterval policy.multiplier k).isSome := by
  cases hmax : Interval.scale policy.maxInterval policy.multiplier with
  | none =>
      rcases interval_scaled (k := k) hmax with heq | ⟨d, d', hd, hd', -, -⟩
      · simp [heq]
      · simp [hd, hd']
  | some product =>
      rw [isSome_interval_of_max (Option.isSome_of_eq_some hmax)]
      constructor
      · rintro (rfl | hinitial)
        · exact .inr rfl
        · exact .inl ⟨hinitial, rfl⟩
      · rintro (⟨hinitial, -⟩ | hscaled)
        · exact .inr hinitial
        · exact isSome_scale_of_scaled hscaled

/-! ## The closed form of exact intervals -/

section
variable {policy : RetryPolicy ExactDuration} {current next d : ExactDuration} {m : ℚ}

theorem fromSecsF64_eq_some {x : ℚ} (h : ExactDuration.fromSecsF64 (.finite x) = some d) : d.secs = x := by
  rw [ExactDuration.fromSecsF64] at h
  split at h
  · cases h
    rfl
  · cases h

theorem secs_min : (min current next).secs = min current.secs next.secs :=
  Monotone.map_min (f := ExactDuration.secs) fun _ _ h => h

theorem interval_eq (hm : policy.multiplier = .finite m) (h1 : 1 ≤ m)
    (hle : policy.initialInterval.secs ≤ policy.maxInterval.secs) (h : policy.interval i = some d) :
    d.secs = min (policy.initialInterval.secs * m ^ i) policy.maxInterval.secs := by
  induction i generalizing d with
  | zero =>
      cases h
      rw [pow_zero, mul_one, min_eq_left hle]
  | succ i ih =>
      cases hi : policy.interval i with
      | none => simp [interval_none_of_le hi (Nat.le_succ i)] at h
      | some current =>
          rw [interval_succ hi, hm, Option.map_eq_some_iff] at h
          obtain ⟨next, hnext, rfl⟩ := h
          have h0 : 0 ≤ m := zero_le_one.trans h1
          have hgrow : policy.maxInterval.secs ≤ policy.maxInterval.secs * m :=
            le_mul_of_one_le_right policy.maxInterval.nonneg h1
          rw [secs_min, fromSecsF64_eq_some hnext, ih hi, min_mul_of_nonneg _ _ h0, mul_assoc, ← pow_succ,
            min_assoc, min_eq_right hgrow]

theorem schedule_mono (h1 : 1 ≤ m) (hle : i ≤ k) :
    min (policy.initialInterval.secs * m ^ i) policy.maxInterval.secs ≤
      min (policy.initialInterval.secs * m ^ k) policy.maxInterval.secs :=
  min_le_min_right _ (mul_le_mul_of_nonneg_left (pow_le_pow_right₀ h1 hle) policy.initialInterval.nonneg)

theorem schedules_of_le (hm : policy.multiplier = .finite m) (h1 : 1 ≤ m)
    (hle : policy.initialInterval.secs ≤ policy.maxInterval.secs) :
    policy.Schedules m (retryAsync policy operation).sleeps :=
  fun _ _ hd => interval_eq hm h1 hle (retryAsync_sleeps hd)

/-- The first sleep is the initial interval, whatever the maximum. -/
theorem schedules_first (h : policy.Schedules m (retryAsync policy operation).sleeps) :
    policy.initialInterval.secs ≤ policy.maxInterval.secs ∨ Final policy operation 0 := by
  by_contra hnot
  rw [not_or] at hnot
  obtain ⟨d, hd⟩ := exists_first_sleep hnot.2
  have hsecs := h 0 d hd
  cases retryAsync_sleeps hd
  rw [pow_zero, mul_one] at hsecs
  exact hnot.1 (left_eq_inf.mp hsecs)

theorem RetryPolicy.Schedules.le_max {sleeps} (h : policy.Schedules m sleeps) :
    ∀ d ∈ sleeps, d.secs ≤ policy.maxInterval.secs := by
  intro d hd
  obtain ⟨i, hi⟩ := List.mem_iff_getElem?.mp hd
  rw [h i d hi]
  exact min_le_right _ _

theorem RetryPolicy.Schedules.pairwise {sleeps} (h : policy.Schedules m sleeps) (h1 : 1 ≤ m) :
    sleeps.Pairwise fun d d' => d.secs ≤ d'.secs := by
  rw [List.pairwise_iff_getElem]
  intro i j hi hj hij
  rw [h i _ (List.getElem?_eq_getElem hi), h j _ (List.getElem?_eq_getElem hj)]
  exact schedule_mono h1 hij.le

end

end OmniMesh.Core

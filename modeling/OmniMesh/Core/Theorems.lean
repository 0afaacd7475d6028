import OmniMesh.Core.Lemmas.Retry

/-!
# Retries
-/

namespace OmniMesh.Core

variable {α : Type}

/-- The operation is retried up to its first final outcome `k`, which is returned, exactly when the initial
interval and the maximum can be multiplied, or the initial interval can be multiplied `k` times without the
maximum. `retry_async` without retries is its general loop. -/
theorem retry_follows_iff (policy : RetryPolicy Duration) (operation : Nat → Result α) :
    (∃ k, IsLeast {k | Final policy operation k} k ∧
      ((retryAsync policy operation).Follows operation k ↔
        (policy.initialInterval.Fits policy.multiplier ∧ policy.maxInterval.Fits policy.multiplier) ∨
        (Interval.scaled policy.initialInterval policy.multiplier k).isSome)) ∧
    retryAsync policy operation = retryLoop policy operation 0 policy.initialInterval := by
  obtain ⟨k, hk⟩ := exists_least_final policy operation
  refine ⟨⟨k, hk, ?_⟩, retryAsync_eq⟩
  rw [retryAsync_follows_iff hk, isSome_interval_iff, ← Duration.isSome_fromSecsF64_iff,
    ← Duration.isSome_fromSecsF64_iff]
  rfl

/-- The policies that come with the crate never make `retry_async` panic. -/
theorem builtin_policies_fit : ∀ policy ∈ [RetryPolicy.default, .aggressive, .conservative, .none],
    policy.initialInterval.Fits policy.multiplier ∧ policy.maxInterval.Fits policy.multiplier := by
  simp only [← Duration.isSome_fromSecsF64_iff]
  decide +kernel

/-- The seconds of the longest interval are rounded up to `2 ^ 64`, so even one times it does not fit. -/
example : Interval.scale (Duration.fromSecs 18446744073709551615) (.finite 1) = none := by decide +kernel

/-- The first attempt times out, the second succeeds. -/
def secondSucceeds : Nat → Result Unit
  | 0 => .error (.timeout 1000)
  | _ => .ok ()

/-- The default intervals with a multiplier of `10 ^ 21`, whose first product exceeds every `Duration`
although the next interval would be cut to 30 seconds. -/
def steepPolicy : RetryPolicy Duration :=
  { RetryPolicy.default with multiplier := .finite 1000000000000000000000 }

theorem not_final_secondSucceeds {δ : Type} {policy : RetryPolicy δ} (h : 0 < policy.maxRetries.toNat) :
    ¬ Final policy secondSucceeds 0 := by
  rintro (⟨value, hv⟩ | ⟨err, he, hr⟩ | hmax)
  · cases hv
  · cases he
    cases hr
  · omega

theorem retry_panics_before_cap :
    IsLeast {k | Final steepPolicy secondSucceeds k} 1 ∧
    (retryAsync steepPolicy secondSucceeds).result = none ∧
    ¬ (retryAsync steepPolicy secondSucceeds).Follows secondSucceeds 1 := by
  have hmax : 0 < steepPolicy.maxRetries.toNat := by decide
  have hproduct : Interval.scale steepPolicy.initialInterval steepPolicy.multiplier = none := by
    decide +kernel
  have hrun : (retryAsync steepPolicy secondSucceeds).result = none := by
    rw [retryAsync_eq, retryLoop_panic (not_final_secondSucceeds hmax) hmax hproduct]
  refine ⟨⟨.inl ⟨(), rfl⟩, fun k hk => ?_⟩, hrun, fun h => ?_⟩
  · rcases Nat.eq_zero_or_pos k with rfl | hpos
    · exact absurd hk (not_final_secondSucceeds hmax)
    · exact hpos
  · simp [h.result] at hrun

/-- With a multiplier of at least one and exact arithmetic, the sleeps are the capped powers exactly when
the initial interval is within the maximum or the first outcome is final; then none exceeds the maximum,
and they never decrease. -/
theorem backoff_schedule_iff (policy : RetryPolicy ExactDuration) (m : ℚ)
    (hm : policy.multiplier = .finite m) (h1 : 1 ≤ m) (operation : Nat → Result α) :
    (policy.Schedules m (retryAsync policy operation).sleeps ↔
      policy.initialInterval.secs ≤ policy.maxInterval.secs ∨ Final policy operation 0) ∧
    (policy.initialInterval.secs ≤ policy.maxInterval.secs →
      (∀ d ∈ (retryAsync policy operation).sleeps, d.secs ≤ policy.maxInterval.secs) ∧
      (retryAsync policy operation).sleeps.Pairwise fun d d' => d.secs ≤ d'.secs) := by
  refine ⟨⟨schedules_first, ?_⟩, fun hle => ?_⟩
  · rintro (hle | hfinal)
    · exact schedules_of_le hm h1 hle
    · intro i d hd
      simp [retryAsync_sleeps_of_final hfinal] at hd
  · have hschedules : policy.Schedules m (retryAsync policy operation).sleeps := schedules_of_le hm h1 hle
    exact ⟨hschedules.le_max, hschedules.pairwise h1⟩

theorem backoff_schedule_iff_default : RetryPolicy.default.exact.Schedules 2
    (retryAsync RetryPolicy.default.exact fun _ => (.error (.timeout 1000) : Result Unit)).sleeps := by
  have h := backoff_schedule_iff RetryPolicy.default.exact 2 rfl (by norm_num)
    fun _ => (.error (.timeout 1000) : Result Unit)
  have hle : RetryPolicy.default.exact.initialInterval.secs ≤ RetryPolicy.default.exact.maxInterval.secs := by
    decide +kernel
  exact h.1.mpr (.inl hle)

/-- A minute at first, at most half a minute. -/
def wideStart : RetryPolicy Duration := { RetryPolicy.default with initialInterval := .fromSecs 60 }

/-- One sleep of the initial interval, when it can be multiplied. -/
theorem sleeps_secondSucceeds {δ : Type} [Interval δ] {policy : RetryPolicy δ} {next : δ}
    (hmax : 0 < policy.maxRetries.toNat)
    (hnext : Interval.scale policy.initialInterval policy.multiplier = some next) :
    (retryAsync policy secondSucceeds).sleeps = [policy.initialInterval] := by
  rw [retryAsync_eq, retryLoop_again (not_final_secondSucceeds hmax) hmax hnext,
    retryLoop_final (.inl ⟨(), rfl⟩)]

theorem backoff_exceeds_maximum :
    (retryAsync wideStart secondSucceeds).sleeps = [.fromSecs 60] ∧
    (retryAsync wideStart.exact secondSucceeds).sleeps = [(Duration.fromSecs 60).exact] ∧
    wideStart.exact.maxInterval.secs < (Duration.fromSecs 60).exact.secs ∧
    ¬ wideStart.exact.Schedules 2 (retryAsync wideStart.exact secondSucceeds).sleeps := by
  have hmax : 0 < wideStart.maxRetries.toNat := by decide
  have hlt : wideStart.exact.maxInterval.secs < (Duration.fromSecs 60).exact.secs := by decide +kernel
  have hproduct : Interval.scale wideStart.initialInterval wideStart.multiplier = some (.fromSecs 120) := by
    decide +kernel
  have hexact : Interval.scale wideStart.exact.initialInterval wideStart.exact.multiplier =
      some (Duration.fromSecs 120).exact := by
    decide +kernel
  have hsleeps : (retryAsync wideStart.exact secondSucceeds).sleeps = [(Duration.fromSecs 60).exact] :=
    sleeps_secondSucceeds hmax hexact
  refine ⟨sleeps_secondSucceeds hmax hproduct, hsleeps, hlt, fun h => ?_⟩
  have hfirst := h 0 (Duration.fromSecs 60).exact (by rw [hsleeps]; rfl)
  rw [hfirst] at hlt
  exact absurd hlt (not_lt.mpr (min_le_right _ _))

end OmniMesh.Core

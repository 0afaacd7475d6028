import OmniMesh.Core.Duration
import OmniMesh.Core.Error

/-!
# Retries with exponential backoff (`omnimesh-core/src/retry.rs`)

The loop is the same for every arithmetic of its intervals; the crate's is `Duration`.
-/

namespace OmniMesh.Core

structure RetryPolicy (δ : Type) where
  maxRetries : UInt32
  initialInterval : δ
  maxInterval : δ
  multiplier : F64

/-- The fields of `backoff::ExponentialBackoff` that are used. -/
structure ExponentialBackoff (δ : Type) where
  initialInterval : δ
  maxInterval : δ
  multiplier : F64

namespace RetryPolicy

def default : RetryPolicy Duration := ⟨5, .fromMillis 100, .fromSecs 30, .finite 2⟩

def aggressive : RetryPolicy Duration := ⟨10, .fromMillis 50, .fromSecs 5, .finite (3 / 2)⟩

def conservative : RetryPolicy Duration := ⟨3, .fromSecs 1, .fromSecs 60, .finite 3⟩

def none : RetryPolicy Duration := { default with maxRetries := 0 }

def toBackoff {δ : Type} (self : RetryPolicy δ) : ExponentialBackoff δ :=
  ⟨self.initialInterval, self.maxInterval, self.multiplier⟩

def exact (self : RetryPolicy Duration) : RetryPolicy ExactDuration :=
  ⟨self.maxRetries, self.initialInterval.exact, self.maxInterval.exact, self.multiplier⟩

end RetryPolicy

/-- How often `retry_async` invoked the operation, its sleeps, and what it returned (`none` when it
panicked). -/
structure Retried (δ α : Type) where
  invocations : Nat
  sleeps : List δ
  result : Option (Result α)

variable {δ α : Type}

section
variable [Interval δ]

/-- The loop; `operation i` is the outcome of the operation when it is invoked for the time `i + 1`. -/
def retryLoop (policy : RetryPolicy δ) (operation : Nat → Result α) (attempts : Nat)
    (currentInterval : δ) : Retried δ α :=
  match operation attempts with
  | .ok value => ⟨1, [], some (.ok value)⟩
  | .error err =>
      if err.isRetryable ∧ attempts < policy.maxRetries.toNat then
        -- sleeps first, then computes the next interval
        match Interval.scale currentInterval policy.toBackoff.multiplier with
        | none => ⟨1, [currentInterval], none⟩
        | some next =>
            let rest := retryLoop policy operation (attempts + 1) (min next policy.toBackoff.maxInterval)
            ⟨rest.invocations + 1, currentInterval :: rest.sleeps, rest.result⟩
      else ⟨1, [], some (.error err)⟩
termination_by policy.maxRetries.toNat - attempts

def retryAsync (policy : RetryPolicy δ) (operation : Nat → Result α) : Retried δ α :=
  if policy.maxRetries = 0 then ⟨1, [], some (operation 0)⟩
  else retryLoop policy operation 0 policy.toBackoff.initialInterval

end

/-- The outcomes after which nothing is tried again. -/
def Final (policy : RetryPolicy δ) (operation : Nat → Result α) (k : Nat) : Prop :=
  (∃ value, operation k = .ok value) ∨ (∃ err, operation k = .error err ∧ err.isRetryable = false) ∨
    k = policy.maxRetries.toNat

/-- The run ends with the outcome `k` and retries each outcome before it. -/
structure Retried.Follows (run : Retried δ α) (operation : Nat → Result α) (k : Nat) : Prop where
  invocations : run.invocations = k + 1
  sleeps : run.sleeps.length = k
  result : run.result = some (operation k)

/-- Sleep `i + 1` is the initial interval times the power `i` of the multiplier, up to the maximum. -/
def RetryPolicy.Schedules (self : RetryPolicy ExactDuration) (m : ℚ) (sleeps : List ExactDuration) : Prop :=
  ∀ i d, sleeps[i]? = some d →
    d.secs = min (self.initialInterval.secs * m ^ i) self.maxInterval.secs

end OmniMesh.Core

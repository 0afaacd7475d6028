import Mathlib.Algebra.Order.Field.Rat
import Mathlib.Data.Nat.Cast.Order.Field
import OmniMesh.Lib.Rounding

/-!
# Durations and their products (`std::time::Duration`)

What `retry_async` does with its intervals, in two arithmetics: `Duration` is the machine's, in whole
nanoseconds and with a rounding in every `f64` operation, and `ExactDuration` does not round. The panics of
`from_secs_f64` are the same in both.
-/

namespace OmniMesh.Core
open Rounding

def binary64 : Format := ⟨53, -1074, by decide⟩

/-- An `f64`: a number, or infinite or not a number. -/
inductive F64
  | finite (value : ℚ)
  | notFinite
  deriving DecidableEq, Repr

namespace F64

/-- The nearest `f64`, infinite beyond the largest one. -/
def round (q : ℚ) : F64 :=
  if |binary64.round q| < 2 ^ 1024 then .finite (binary64.round q) else .notFinite

def mul : F64 → F64 → F64
  | .finite a, .finite b => round (a * b)
  -- an infinite factor gives no number at zero
  | _, _ => .notFinite

end F64

structure Duration where
  secs : UInt64
  nanos : Fin 1000000000
  deriving DecidableEq

namespace Duration

def fromSecs (secs : UInt64) : Duration := ⟨secs, 0⟩

def fromMillis (millis : UInt64) : Duration :=
  ⟨millis / 1000, ⟨millis.toNat % 1000 * 1000000, by omega⟩⟩

def fromNanos (nanos : ℕ) : Duration :=
  ⟨UInt64.ofNat (nanos / 1000000000), ⟨nanos % 1000000000, Nat.mod_lt _ (by decide)⟩⟩

def asNanos (self : Duration) : ℕ := self.secs.toNat * 1000000000 + self.nanos

theorem asNanos_injective : Function.Injective asNanos := by
  rintro ⟨secs, nanos⟩ ⟨secs', nanos'⟩ h
  simp only [asNanos] at h
  have hsecs : secs = secs' := UInt64.toNat_inj.mp (by omega)
  have hnanos : nanos = nanos' := Fin.ext (by omega)
  rw [hsecs, hnanos]

instance : LinearOrder Duration := LinearOrder.lift' asNanos asNanos_injective

/-- The value of the `f64`, which is finite: the seconds and the fraction are converted, and added. -/
def asSecsF64 (self : Duration) : ℚ :=
  binary64.round (binary64.round self.secs.toNat + binary64.round (self.nanos / 1000000000))

/-- `none` is the panic of `from_secs_f64`, which rounds to the nearest nanosecond. -/
def fromSecsF64 : F64 → Option Duration
  | .finite secs =>
      if 0 ≤ secs ∧ secs < 2 ^ 64 then
        some (fromNanos (nearestEven (secs * 1000000000)).toNat)
      else none
  | .notFinite => none

end Duration

/-- A `Duration` in seconds, fewer than `2 ^ 64`. -/
structure ExactDuration where
  secs : ℚ
  nonneg : 0 ≤ secs
  fits : secs < 2 ^ 64
  deriving DecidableEq

namespace ExactDuration

theorem secs_injective : Function.Injective secs := by
  rintro ⟨secs, _, _⟩ ⟨secs', _, _⟩ h
  cases h
  rfl

instance : LinearOrder ExactDuration := LinearOrder.lift' secs secs_injective

def fromSecsF64 : F64 → Option ExactDuration
  | .finite secs => if h : 0 ≤ secs ∧ secs < 2 ^ 64 then some ⟨secs, h.1, h.2⟩ else none
  | .notFinite => none

def mulF64 (self : ExactDuration) : F64 → F64
  | .finite factor => .finite (self.secs * factor)
  | .notFinite => .notFinite

end ExactDuration

theorem Duration.asNanos_lt (d : Duration) : (d.asNanos : ℚ) / 1000000000 < 2 ^ 64 := by
  have hlt : d.asNanos < 2 ^ 64 * 1000000000 := by
    have := d.secs.toNat_lt
    simp only [Duration.asNanos]
    omega
  rw [div_lt_iff₀ (by norm_num)]
  exact_mod_cast hlt

def Duration.exact (self : Duration) : ExactDuration :=
  ⟨self.asNanos / 1000000000, div_nonneg (Nat.cast_nonneg _) (by norm_num), self.asNanos_lt⟩

/-- Intervals of a retry policy. They have a `min`, and `scale` is
`Duration::from_secs_f64(interval.as_secs_f64() * multiplier)`, `none` when it panics; it does not panic
on an interval below one that it accepts. -/
class Interval (δ : Type) extends LinearOrder δ where
  scale : δ → F64 → Option δ
  scale_of_le : ∀ {d d' : δ} {multiplier : F64}, d ≤ d' → (scale d' multiplier).isSome →
    (scale d multiplier).isSome

/-- The interval times the power `k` of the multiplier, one factor after the other and without a maximum. -/
def Interval.scaled {δ : Type} [Interval δ] (d : δ) (multiplier : F64) : ℕ → Option δ
  | 0 => some d
  | k + 1 => (scaled d multiplier k).bind fun product => scale product multiplier

/-! ## Products that fit -/

namespace Duration

variable {d d' : Duration}

/-- The product of the interval with the multiplier is a number that fits a `Duration`. -/
def Fits (self : Duration) (multiplier : F64) : Prop :=
  ∃ m, multiplier = .finite m ∧ 0 ≤ binary64.round (self.asSecsF64 * m) ∧
    binary64.round (self.asSecsF64 * m) < 2 ^ 64

theorem isSome_fromSecsF64_iff {multiplier : F64} :
    (fromSecsF64 (.mul (.finite d.asSecsF64) multiplier)).isSome ↔ d.Fits multiplier := by
  cases multiplier with
  | notFinite => simp [F64.mul, fromSecsF64, Fits]
  | finite m =>
      simp only [F64.mul, F64.round, Fits, F64.finite.injEq, exists_eq_left']
      split
      · rw [fromSecsF64]
        split <;> simp_all
      · rename_i hlarge
        simp only [fromSecsF64, Option.isSome_none, Bool.false_eq_true, false_iff, not_and, not_lt]
        intro h0
        rw [abs_of_nonneg h0, not_lt] at hlarge
        exact (pow_le_pow_right₀ one_le_two (by decide)).trans hlarge

theorem round_fraction_nonneg (nanos : Fin 1000000000) : 0 ≤ binary64.round (nanos / 1000000000) :=
  Format.round_nonneg (div_nonneg (Nat.cast_nonneg _) (by norm_num))

theorem round_fraction_lt_one (nanos : Fin 1000000000) : binary64.round (nanos / 1000000000) < 1 := by
  have hnanos : (nanos : ℚ) ≤ 999999999 := by exact_mod_cast Nat.le_of_lt_succ nanos.isLt
  have hle : (nanos : ℚ) / 1000000000 ≤ (1073741823 : ℕ) * 2 ^ (-30 : ℤ) := by
    rw [div_le_iff₀ (by norm_num)]
    norm_num
    linarith
  calc binary64.round (nanos / 1000000000)
      ≤ binary64.round ((1073741823 : ℕ) * 2 ^ (-30 : ℤ)) := Format.round_mono hle
    _ = (1073741823 : ℕ) * 2 ^ (-30 : ℤ) :=
        Format.round_mul_two_zpow (by decide) (by decide)
    _ < 1 := by norm_num

/-- The fraction does not lift the seconds above the next full second. -/
theorem round_add_fraction_le {n : ℕ} {y : ℚ} (h0 : 0 ≤ y) (h1 : y < 1) :
    binary64.round (binary64.round n + y) ≤ binary64.round (n + 1 : ℕ) := by
  rcases Nat.lt_or_ge n (2 ^ 53) with hn | hn
  · rw [Format.round_natCast hn (by decide)]
    apply Format.round_mono
    push_cast
    linarith
  · rw [Format.round_add_fraction hn (by decide) h0 h1]
    apply Format.round_mono
    exact_mod_cast Nat.le_succ n

theorem asSecsF64_nonneg : 0 ≤ d.asSecsF64 :=
  Format.round_nonneg
    (add_nonneg (Format.round_nonneg (Nat.cast_nonneg _)) (round_fraction_nonneg _))

theorem asSecsF64_mono : Monotone asSecsF64 := by
  intro d d' h
  have hnanos : d.asNanos ≤ d'.asNanos := h
  simp only [asNanos] at hnanos
  rcases Nat.lt_or_ge d.secs.toNat d'.secs.toNat with hlt | hge
  · calc d.asSecsF64 ≤ binary64.round (d.secs.toNat + 1 : ℕ) :=
          round_add_fraction_le (round_fraction_nonneg _) (round_fraction_lt_one _)
      _ ≤ binary64.round d'.secs.toNat := Format.round_mono (by exact_mod_cast hlt)
      _ = binary64.round (binary64.round d'.secs.toNat) :=
          (Format.round_round (Nat.cast_nonneg _)).symm
      _ ≤ d'.asSecsF64 := Format.round_mono (le_add_of_nonneg_right (round_fraction_nonneg _))
  · have hsecs : d.secs.toNat = d'.secs.toNat := by omega
    have hfraction : (d.nanos : ℚ) / 1000000000 ≤ d'.nanos / 1000000000 :=
      div_le_div_of_nonneg_right (by exact_mod_cast (by omega : d.nanos.val ≤ d'.nanos.val)) (by norm_num)
    rw [asSecsF64, asSecsF64, hsecs]
    exact Format.round_mono (add_le_add_right (Format.round_mono hfraction) _)

theorem Fits.of_le {multiplier : F64} (h : d'.Fits multiplier) (hle : d ≤ d') : d.Fits multiplier := by
  obtain ⟨m, rfl, h0, hlt⟩ := h
  have hsecs := asSecsF64_mono hle
  refine ⟨m, rfl, ?_⟩
  rcases le_total 0 m with hm | hm
  · exact ⟨Format.round_nonneg (mul_nonneg asSecsF64_nonneg hm),
      (Format.round_mono (mul_le_mul_of_nonneg_right hsecs hm)).trans_lt hlt⟩
  · -- a negative multiplier is accepted when the product is rounded to zero
    have hle : binary64.round (d.asSecsF64 * m) ≤ binary64.round 0 :=
      Format.round_mono (mul_nonpos_of_nonneg_of_nonpos asSecsF64_nonneg hm)
    rw [Format.round_zero] at hle
    exact ⟨h0.trans (Format.round_mono (mul_le_mul_of_nonpos_right hsecs hm)),
      hle.trans_lt (by norm_num)⟩

instance : Interval Duration where
  scale d multiplier := fromSecsF64 (.mul (.finite d.asSecsF64) multiplier)
  scale_of_le hle h := isSome_fromSecsF64_iff.mpr ((isSome_fromSecsF64_iff.mp h).of_le hle)

end Duration

namespace ExactDuration

instance : Interval ExactDuration where
  scale d multiplier := fromSecsF64 (d.mulF64 multiplier)
  scale_of_le {d d' multiplier} hle h := by
    cases multiplier with
    | notFinite => cases h
    | finite m =>
        have hsecs : d.secs ≤ d'.secs := hle
        simp only [fromSecsF64, mulF64] at h ⊢
        split at h
        · rename_i hfits
          rw [dif_pos]
          · rfl
          · rcases le_total 0 m with hm | hm
            · exact ⟨mul_nonneg d.nonneg hm, (mul_le_mul_of_nonneg_right hsecs hm).trans_lt hfits.2⟩
            · exact ⟨hfits.1.trans (mul_le_mul_of_nonpos_right hsecs hm),
                (mul_nonpos_of_nonneg_of_nonpos d.nonneg hm).trans_lt (by norm_num)⟩
        · cases h

end ExactDuration

end OmniMesh.Core

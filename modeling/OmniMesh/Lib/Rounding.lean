import Mathlib.Algebra.Order.Field.Power
import Mathlib.Data.Int.Log
import Mathlib.Data.Rat.Floor
import Mathlib.Order.Lattice
import Mathlib.Tactic.Linarith
import Mathlib.Tactic.NormNum.Basic
import Mathlib.Tactic.Positivity

/-!
# Rounding to binary floating point

The nearest number of a binary format to a rational, the even one of two. A format has `precision` bits
and a least exponent; its exponents have no upper end, which is left to its user.
-/

namespace Rounding

/-- The nearest integer, the even one of two. -/
def nearestEven (q : ℚ) : ℤ :=
  if q - ⌊q⌋ < 1 / 2 ∨ (q - ⌊q⌋ = 1 / 2 ∧ ⌊q⌋ % 2 = 0) then ⌊q⌋ else ⌊q⌋ + 1

structure Format where
  precision : ℕ
  least : ℤ
  precision_pos : 0 < precision

variable {f : Format} {x y q : ℚ} {n : ℤ}

namespace Format

/-- The exponent of the last place of numbers of this size. -/
def exponent (f : Format) (x : ℚ) : ℤ := max (Int.log 2 x + 1 - f.precision) f.least

/-- The nearest number to one that is not negative. -/
def magnitude (f : Format) (x : ℚ) : ℚ := nearestEven (x / 2 ^ f.exponent x) * 2 ^ f.exponent x

def round (f : Format) (x : ℚ) : ℚ := if x < 0 then -f.magnitude (-x) else f.magnitude x

end Format

/-! ## Integers -/

theorem floor_le_nearestEven : ⌊q⌋ ≤ nearestEven q := by
  rw [nearestEven]
  split <;> omega

theorem nearestEven_le_floor : nearestEven q ≤ ⌊q⌋ + 1 := by
  rw [nearestEven]
  split <;> omega

theorem nearestEven_of_lt (h0 : 0 ≤ y) (h : y < 1 / 2) : nearestEven (n + y) = n := by
  have hfloor : ⌊(n : ℚ) + y⌋ = n := by
    rw [Int.floor_eq_iff]
    constructor <;> linarith
  rw [nearestEven, hfloor, add_sub_cancel_left, if_pos (.inl h)]

theorem nearestEven_intCast : nearestEven n = n := by
  simpa using nearestEven_of_lt (n := n) le_rfl (by norm_num)

theorem nearestEven_mono {a b : ℚ} (hab : a ≤ b) : nearestEven a ≤ nearestEven b := by
  rcases (Int.floor_le_floor hab).lt_or_eq with hlt | heq
  · exact nearestEven_le_floor.trans (Int.add_one_le_of_lt hlt |>.trans floor_le_nearestEven)
  · simp only [nearestEven, heq]
    split
    · split <;> omega
    · rename_i ha
      rw [if_neg]
      -- what goes up for `a` goes up for the larger `b`
      rintro (hb | ⟨hb, heven⟩)
      · exact ha (.inl (by linarith))
      · rcases (show a - ⌊b⌋ ≤ 1 / 2 by linarith).lt_or_eq with hlt | heq
        · exact ha (.inl hlt)
        · exact ha (.inr ⟨heq, heven⟩)

theorem nearestEven_le (h : q ≤ n) : nearestEven q ≤ n :=
  nearestEven_intCast (n := n) ▸ nearestEven_mono h

theorem le_nearestEven (h : n ≤ q) : n ≤ nearestEven q :=
  nearestEven_intCast (n := n) ▸ nearestEven_mono h

/-! ## Numbers of a format -/

namespace Format

theorem two_zpow_pos (e : ℤ) : (0 : ℚ) < 2 ^ e := zpow_pos two_pos e

theorem two_zpow_le {e e' : ℤ} (h : e ≤ e') : (2 : ℚ) ^ e ≤ 2 ^ e' := zpow_le_zpow_right₀ one_le_two h

theorem two_zpow_add (e : ℤ) (k : ℕ) : (2 : ℚ) ^ (e + k) = ((2 ^ k : ℤ) : ℚ) * 2 ^ e := by
  rw [add_comm, zpow_add₀ two_ne_zero, zpow_natCast]
  push_cast
  rfl

theorem least_le_exponent : f.least ≤ f.exponent x := le_max_right _ _

theorem lt_two_zpow : x < 2 ^ (f.exponent x + f.precision) := by
  have hlog := Int.lt_zpow_succ_log_self one_lt_two x
  have hle : Int.log 2 x + 1 ≤ f.exponent x + f.precision := by
    have := le_max_left (Int.log 2 x + 1 - f.precision) f.least
    rw [exponent]
    omega
  exact hlog.trans_le (two_zpow_le hle)

/-- The number has all its bits when its exponent is not the least one. -/
theorem two_zpow_le_of_lt (hx : 0 < x) (h : f.least < f.exponent x) :
    2 ^ (f.exponent x + f.precision - 1) ≤ x := by
  have hexponent : f.exponent x + f.precision - 1 = Int.log 2 x := by
    rw [exponent] at h ⊢
    rw [max_eq_left_of_lt (lt_max_iff.mp h |>.resolve_right (lt_irrefl _))]
    omega
  rw [hexponent]
  exact_mod_cast Int.zpow_log_le_self one_lt_two hx

theorem exponent_mono (hx : 0 < x) (h : x ≤ y) : f.exponent x ≤ f.exponent y := by
  have := Int.log_mono_right (b := 2) hx h
  exact max_le_max_right _ (by omega)

theorem magnitude_zero : f.magnitude 0 = 0 := by
  have h : nearestEven 0 = 0 := nearestEven_intCast (n := 0)
  rw [magnitude, zero_div, h, Int.cast_zero, zero_mul]

/-- The mantissa of a number that is not negative. -/
theorem exists_mantissa (f : Format) (hx : 0 ≤ x) : ∃ m : ℕ, f.magnitude x = m * 2 ^ f.exponent x := by
  have hn : (0 : ℤ) ≤ nearestEven (x / 2 ^ f.exponent x) :=
    le_nearestEven (by simpa using div_nonneg hx (two_zpow_pos _).le)
  obtain ⟨m, hm⟩ := Int.eq_ofNat_of_zero_le hn
  refine ⟨m, ?_⟩
  rw [magnitude, hm]
  push_cast
  rfl

theorem magnitude_nonneg (hx : 0 ≤ x) : 0 ≤ f.magnitude x := by
  obtain ⟨m, hm⟩ := exists_mantissa f hx
  rw [hm]
  exact mul_nonneg (Nat.cast_nonneg m) (two_zpow_pos _).le

theorem magnitude_le_two_zpow : f.magnitude x ≤ 2 ^ (f.exponent x + f.precision) := by
  have hle : nearestEven (x / 2 ^ f.exponent x) ≤ 2 ^ f.precision := by
    apply nearestEven_le
    rw [div_le_iff₀ (two_zpow_pos _), ← two_zpow_add]
    exact lt_two_zpow.le
  rw [magnitude, two_zpow_add]
  exact mul_le_mul_of_nonneg_right (by exact_mod_cast hle) (two_zpow_pos _).le

theorem two_zpow_le_magnitude (hx : 0 < x) (h : f.least < f.exponent x) :
    2 ^ (f.exponent x + f.precision - 1) ≤ f.magnitude x := by
  have hprecision := f.precision_pos
  have hpow : (2 : ℚ) ^ (f.exponent x + f.precision - 1) =
      ((2 ^ (f.precision - 1) : ℤ) : ℚ) * 2 ^ f.exponent x := by
    rw [← two_zpow_add]
    congr 1
    omega
  have hle : 2 ^ (f.precision - 1) ≤ nearestEven (x / 2 ^ f.exponent x) := by
    apply le_nearestEven
    rw [le_div_iff₀ (two_zpow_pos _), ← hpow]
    exact two_zpow_le_of_lt hx h
  rw [magnitude, hpow]
  exact mul_le_mul_of_nonneg_right (by exact_mod_cast hle) (two_zpow_pos _).le

theorem magnitude_mono (hx : 0 ≤ x) (h : x ≤ y) : f.magnitude x ≤ f.magnitude y := by
  rcases hx.eq_or_lt with rfl | hx
  · rw [magnitude_zero]
    exact magnitude_nonneg h
  rcases (exponent_mono (f := f) hx h).lt_or_eq with hlt | heq
  · -- a power of two lies between the two
    calc f.magnitude x ≤ 2 ^ (f.exponent x + f.precision) := magnitude_le_two_zpow
      _ ≤ 2 ^ (f.exponent y + f.precision - 1) := two_zpow_le (by omega)
      _ ≤ f.magnitude y := two_zpow_le_magnitude (hx.trans_le h) (least_le_exponent.trans_lt hlt)
  · rw [magnitude, magnitude, heq]
    have hle : nearestEven (x / 2 ^ f.exponent y) ≤ nearestEven (y / 2 ^ f.exponent y) :=
      nearestEven_mono (div_le_div_of_nonneg_right h (two_zpow_pos _).le)
    exact mul_le_mul_of_nonneg_right (by exact_mod_cast hle) (two_zpow_pos _).le

/-! ## Numbers that stay -/

theorem magnitude_of_div_eq (h : x / 2 ^ f.exponent x = n) : f.magnitude x = x := by
  rw [magnitude, h, nearestEven_intCast, ← h, div_mul_cancel₀ _ (two_zpow_pos _).ne']

theorem magnitude_mul_two_zpow {m : ℕ} {e : ℤ} (hm : m < 2 ^ f.precision) (he : f.least ≤ e) :
    f.magnitude (m * 2 ^ e) = m * 2 ^ e := by
  rcases Nat.eq_zero_or_pos m with rfl | hpos
  · rw [Nat.cast_zero, zero_mul, magnitude_zero]
  have hx : (0 : ℚ) < m * 2 ^ e := mul_pos (by exact_mod_cast hpos) (two_zpow_pos e)
  have hlt : (m : ℚ) * 2 ^ e < 2 ^ (e + f.precision) := by
    rw [two_zpow_add]
    exact mul_lt_mul_of_pos_right (by exact_mod_cast hm) (two_zpow_pos e)
  have hlog : Int.log 2 ((m : ℚ) * 2 ^ e) < e + f.precision :=
    (Int.lt_zpow_iff_log_lt one_lt_two hx).mp (by exact_mod_cast hlt)
  have hle : f.exponent (m * 2 ^ e) ≤ e := max_le (by omega) he
  -- the place of `e` is at or above the last place
  obtain ⟨k, hk⟩ := Int.eq_ofNat_of_zero_le (Int.sub_nonneg_of_le hle)
  refine magnitude_of_div_eq (n := m * 2 ^ k) ?_
  rw [mul_div_assoc, ← zpow_sub₀ two_ne_zero, hk]
  push_cast
  rw [zpow_natCast]

theorem magnitude_magnitude (hx : 0 ≤ x) : f.magnitude (f.magnitude x) = f.magnitude x := by
  rcases hx.eq_or_lt with rfl | hx
  · rw [magnitude_zero, magnitude_zero]
  obtain ⟨m, hmagnitude⟩ := exists_mantissa f hx.le
  have hle := magnitude_le_two_zpow (f := f) (x := x)
  rw [hmagnitude, two_zpow_add] at hle
  have hbound : m ≤ 2 ^ f.precision := by exact_mod_cast le_of_mul_le_mul_right hle (two_zpow_pos _)
  rw [hmagnitude]
  rcases hbound.lt_or_eq with hlt | rfl
  · exact magnitude_mul_two_zpow hlt least_le_exponent
  · -- the carry: the same number with a shorter mantissa at the next exponent
    have hcarry : ((2 ^ f.precision : ℕ) : ℚ) * 2 ^ f.exponent x =
        (1 : ℕ) * 2 ^ (f.exponent x + f.precision) := by
      rw [two_zpow_add]
      push_cast
      rw [one_mul]
    rw [hcarry]
    apply magnitude_mul_two_zpow
    · exact Nat.one_lt_two_pow f.precision_pos.ne'
    · exact (least_le_exponent (x := x)).trans (by omega)

/-! ## Integers above `2 ^ precision` have no room for a fraction -/

theorem one_le_exponent {m : ℕ} (hm : 2 ^ f.precision ≤ m) : 1 ≤ f.exponent m := by
  have hpos : (0 : ℚ) < m := by exact_mod_cast (Nat.two_pow_pos _).trans_le hm
  have hlog : (f.precision : ℤ) ≤ Int.log 2 (m : ℚ) := by
    apply (Int.zpow_le_iff_le_log one_lt_two hpos).mp
    rw [zpow_natCast]
    exact_mod_cast hm
  exact le_max_of_le_left (by omega)

theorem exists_magnitude_eq_natCast {m : ℕ} (hm : 2 ^ f.precision ≤ m) (hleast : f.least ≤ 0) :
    ∃ k : ℕ, f.magnitude m = k ∧ 2 ^ f.precision ≤ k := by
  have hpos : (0 : ℚ) < m := by exact_mod_cast (Nat.two_pow_pos _).trans_le hm
  have hone := one_le_exponent hm
  obtain ⟨n, hn⟩ := exists_mantissa f hpos.le
  obtain ⟨e, he⟩ := Int.eq_ofNat_of_zero_le (zero_le_one.trans hone)
  have hmagnitude : f.magnitude m = (n * 2 ^ e : ℕ) := by
    rw [hn, he, zpow_natCast]
    push_cast
    rfl
  refine ⟨n * 2 ^ e, hmagnitude, ?_⟩
  have hle : (2 : ℚ) ^ (f.precision : ℤ) ≤ f.magnitude m :=
    (two_zpow_le (by omega)).trans (two_zpow_le_magnitude hpos (by omega))
  rw [hmagnitude, zpow_natCast] at hle
  exact_mod_cast hle

theorem magnitude_add_fraction {m : ℕ} (hm : 2 ^ f.precision ≤ m) (hexact : f.magnitude m = m)
    (h0 : 0 ≤ y) (h1 : y < 1) : f.magnitude (m + y) = m := by
  have hone : (1 : ℚ) ≤ m := by exact_mod_cast Nat.one_le_two_pow.trans hm
  have hfloor : ⌊(m : ℚ) + y⌋₊ = m := by
    rw [Nat.floor_eq_iff (by linarith)]
    constructor <;> linarith
  have hexponent : f.exponent (m + y) = f.exponent m := by
    rw [exponent, Int.log_of_one_le_right 2 (by linarith), hfloor, exponent, Int.log_natCast]
  have hplace : (2 : ℚ) ≤ 2 ^ f.exponent m := by
    simpa only [zpow_one] using two_zpow_le (one_le_exponent hm)
  have hdiv : ((m : ℚ) + y) / 2 ^ f.exponent m =
      (nearestEven (m / 2 ^ f.exponent m) : ℚ) + y / 2 ^ f.exponent m := by
    rw [add_div]
    congr 1
    rw [div_eq_iff (two_zpow_pos _).ne']
    exact hexact.symm
  have hsmall : y / 2 ^ f.exponent m < 1 / 2 := by
    rw [div_lt_iff₀ (two_zpow_pos _)]
    linarith
  rw [magnitude, hexponent, hdiv, nearestEven_of_lt (div_nonneg h0 (two_zpow_pos _).le) hsmall]
  exact hexact

/-! ## All numbers -/

theorem round_of_nonneg (hx : 0 ≤ x) : f.round x = f.magnitude x := if_neg hx.not_gt

theorem round_zero : f.round 0 = 0 := (round_of_nonneg le_rfl).trans magnitude_zero

theorem round_nonneg (hx : 0 ≤ x) : 0 ≤ f.round x := by
  rw [round_of_nonneg hx]
  exact magnitude_nonneg hx

theorem round_round (hx : 0 ≤ x) : f.round (f.round x) = f.round x := by
  rw [round_of_nonneg (round_nonneg hx), round_of_nonneg hx, magnitude_magnitude hx]

theorem round_mul_two_zpow {m : ℕ} {e : ℤ} (hm : m < 2 ^ f.precision) (he : f.least ≤ e) :
    f.round (m * 2 ^ e) = m * 2 ^ e := by
  rw [round_of_nonneg (mul_nonneg (Nat.cast_nonneg m) (two_zpow_pos e).le), magnitude_mul_two_zpow hm he]

theorem round_natCast {m : ℕ} (hm : m < 2 ^ f.precision) (hleast : f.least ≤ 0) : f.round m = m := by
  simpa using round_mul_two_zpow hm hleast

theorem round_add_fraction {m : ℕ} (hm : 2 ^ f.precision ≤ m) (hleast : f.least ≤ 0) (h0 : 0 ≤ y)
    (h1 : y < 1) : f.round (f.round m + y) = f.round m := by
  obtain ⟨k, hk, hlarge⟩ := exists_magnitude_eq_natCast hm hleast
  have hexact : f.magnitude k = k := by rw [← hk, magnitude_magnitude (Nat.cast_nonneg m)]
  rw [round_of_nonneg (Nat.cast_nonneg m), hk, round_of_nonneg (add_nonneg (Nat.cast_nonneg k) h0),
    magnitude_add_fraction hlarge hexact h0 h1]

theorem round_mono : Monotone f.round := by
  intro x y h
  rcases lt_or_ge x 0 with hx | hx
  · have hround : f.round x = -f.magnitude (-x) := if_pos hx
    rcases lt_or_ge y 0 with hy | hy
    · have hmono := magnitude_mono (f := f) (neg_nonneg.mpr hy.le) (neg_le_neg h)
      rw [hround, round, if_pos hy]
      exact neg_le_neg hmono
    · rw [hround]
      exact (neg_nonpos.mpr (magnitude_nonneg (neg_nonneg.mpr hx.le))).trans (round_nonneg hy)
  · rw [round_of_nonneg hx, round_of_nonneg (hx.trans h)]
    exact magnitude_mono hx h

end Format

end Rounding

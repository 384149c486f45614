import Mathlib.Data.Rat.Floor
import FlightCurve.Arithmetic

/-!
Euclidean division of exact numbers. Quotient and remainder are corrected separately, each by the
sign of a remainder that may be negative; over the rational numbers the two corrections agree.

The main statement is that they make Euclidean division, for every sign of dividend and divisor.
-/

namespace FlightCurve

/-! Integer parts -/

/-- The integer part of a number: what is behind the point is cut off. -/
def truncate (x : ℚ) : ℤ := if 0 ≤ x then ⌊x⌋ else ⌈x⌉

theorem truncate_of_nonneg {x : ℚ} (h : 0 ≤ x) : (truncate x : ℚ) ≤ x ∧ x < truncate x + 1 := by
  rw [truncate, if_pos h]
  exact ⟨Int.floor_le x, Int.lt_floor_add_one x⟩

theorem truncate_of_neg {x : ℚ} (h : x < 0) : x ≤ truncate x ∧ (truncate x : ℚ) - 1 < x := by
  rw [truncate, if_neg (not_le.2 h)]
  exact ⟨Int.le_ceil x, sub_lt_iff_lt_add.2 (Int.ceil_lt_add_one x)⟩

/-- What is cut off is less than one. -/
theorem abs_sub_truncate_lt (x : ℚ) : |x - truncate x| < 1 := by
  rw [abs_sub_lt_iff]
  rcases le_or_gt 0 x with h | h
  · obtain ⟨hle, hlt⟩ := truncate_of_nonneg h
    constructor <;> linarith
  · obtain ⟨hle, hlt⟩ := truncate_of_neg h
    constructor <;> linarith

/-! Operations -/

/-- Exact division, with the integer part of a quotient and what it leaves of the dividend. -/
def Division.rational : Division ℚ Bool where
  one := 1
  add := (· + ·)
  sub := (· - ·)
  div := (· / ·)
  fmod a b := a - b * truncate (a / b)
  trunc x := truncate x
  abs x := |x|
  isNegative x := x < 0
  isPositive x := 0 < x
  select := cond

/-- What the integer part of the quotient leaves is less than the divisor. -/
theorem abs_sub_mul_truncate_lt (a : ℚ) {b : ℚ} (hb : b ≠ 0) :
    |a - b * truncate (a / b)| < |b| := by
  have hrest : a - b * truncate (a / b) = b * (a / b - truncate (a / b)) := by
    rw [mul_sub, mul_div_cancel₀ a hb]
  calc |a - b * truncate (a / b)|
      = |b| * |a / b - truncate (a / b)| := by rw [hrest, abs_mul]
    _ < |b| * 1 := mul_lt_mul_of_pos_left (abs_sub_truncate_lt (a / b)) (abs_pos.2 hb)
    _ = |b| := mul_one _

/-! Euclidean division -/

/-- The quotient `q` and the remainder `r` of `a` on division by `b`. -/
structure IsEuclidean (a b : ℚ) (q : ℤ) (r : ℚ) : Prop where
  nonneg : 0 ≤ r
  lt : r < |b|
  eq : a = b * q + r

namespace IsEuclidean

variable {a b r r' : ℚ} {q q' : ℤ}

/-- Two quotients differ by less than one. -/
theorem unique (h : IsEuclidean a b q r) (h' : IsEuclidean a b q' r') : q' = q ∧ r' = r := by
  have hdiff : b * ((q' - q : ℤ) : ℚ) = r - r' := by
    have heq := h.eq.symm.trans h'.eq
    push_cast
    linarith
  have hlt : |b| * |((q' - q : ℤ) : ℚ)| < |b| * 1 := by
    rw [← abs_mul, hdiff, mul_one, abs_sub_lt_iff]
    have := h.nonneg
    have := h.lt
    have := h'.nonneg
    have := h'.lt
    constructor <;> linarith
  have hone := lt_of_mul_lt_mul_left hlt (abs_nonneg b)
  have hzero : q' - q = 0 := Int.abs_lt_one_iff.1 (by exact_mod_cast hone)
  refine ⟨sub_eq_zero.1 hzero, ?_⟩
  rw [hzero, Int.cast_zero, mul_zero] at hdiff
  exact (sub_eq_zero.1 hdiff.symm).symm

theorem add_mul (h : IsEuclidean a b q r) (k : ℤ) : IsEuclidean (a + k * b) b (q + k) r where
  nonneg := h.nonneg
  lt := h.lt
  eq := by
    rw [h.eq]
    push_cast
    ring

theorem neg_divisor (h : IsEuclidean a b q r) : IsEuclidean a (-b) (-q) r where
  nonneg := h.nonneg
  lt := (abs_neg b).symm ▸ h.lt
  eq := by
    rw [h.eq]
    push_cast
    ring

end IsEuclidean

/-- Quotient and remainder are moved together: by one divisor, if what is left is negative. -/
theorem isEuclidean_rational (a : ℚ) {b : ℚ} (hb : b ≠ 0) :
    ∃ q : ℤ, Division.rational.quotient a b = q ∧
      IsEuclidean a b q (Division.rational.remainder a b) := by
  have hlt := abs_sub_mul_truncate_lt a hb
  set n := truncate (a / b) with hn
  have hquotient : Division.rational.quotient a b =
      cond (a - b * n < 0) (cond (0 < b) ((n : ℚ) - 1) (n + 1)) n := rfl
  have hremainder : Division.rational.remainder a b =
      cond (a - b * n < 0) (a - b * n + |b|) (a - b * n) := rfl
  rw [hquotient, hremainder]
  obtain ⟨hlower, hupper⟩ := abs_lt.1 hlt
  by_cases hrest : a - b * n < 0
  · rw [decide_eq_true hrest, cond_true, cond_true]
    by_cases hpositive : 0 < b
    · rw [decide_eq_true hpositive, cond_true, abs_of_pos hpositive] at *
      refine ⟨n - 1, by push_cast; rfl, by linarith, ?_, ?_⟩
      · rw [abs_of_pos hpositive]
        linarith
      · push_cast
        ring
    · have hnegative : b < 0 := lt_of_le_of_ne (not_lt.1 hpositive) hb
      rw [decide_eq_false hpositive, cond_false, abs_of_neg hnegative] at *
      refine ⟨n + 1, by push_cast; rfl, by linarith, ?_, ?_⟩
      · rw [abs_of_neg hnegative]
        linarith
      · push_cast
        ring
  · rw [decide_eq_false hrest, cond_false, cond_false]
    exact ⟨n, rfl, not_lt.1 hrest, hupper, by ring⟩

/-- Over exact numbers, quotient and remainder are those of Euclidean division, the only ones there
are. Adding `k` divisors to the dividend adds `k` to the quotient and leaves the remainder; changing
the sign of the divisor changes that of the quotient and leaves the remainder. -/
theorem quotient_remainder_rational (a : ℚ) {b : ℚ} (hb : b ≠ 0) :
    ∃ (q : ℤ) (r : ℚ),
      Division.rational.quotient a b = q ∧ Division.rational.remainder a b = r ∧
      IsEuclidean a b q r ∧ (∀ q' r', IsEuclidean a b q' r' → q' = q ∧ r' = r) ∧
      (∀ k : ℤ, Division.rational.quotient (a + k * b) b = q + k ∧
        Division.rational.remainder (a + k * b) b = r) ∧
      Division.rational.quotient a (-b) = -q ∧ Division.rational.remainder a (-b) = r := by
  obtain ⟨q, hq, h⟩ := isEuclidean_rational a hb
  refine ⟨q, _, hq, rfl, h, fun _ _ h' => h.unique h', fun k => ?_, ?_⟩
  · obtain ⟨q', hq', h'⟩ := isEuclidean_rational (a + k * b) hb
    obtain ⟨hsame, hr⟩ := (h.add_mul k).unique h'
    exact ⟨by rw [hq', hsame, Int.cast_add], hr⟩
  · obtain ⟨q', hq', h'⟩ := isEuclidean_rational a (neg_ne_zero.2 hb)
    obtain ⟨hsame, hr⟩ := h.neg_divisor.unique h'
    exact ⟨by rw [hq', hsame, Int.cast_neg], hr⟩

/-- A negative dividend, and the same with a negative divisor. -/
theorem quotient_remainder_rational_negative :
    Division.rational.quotient (-15 / 2) 2 = -4 ∧ Division.rational.remainder (-15 / 2) 2 = 1 / 2 ∧
      Division.rational.quotient (-15 / 2) (-2) = 4 ∧
      Division.rational.remainder (-15 / 2) (-2) = 1 / 2 := by
  obtain ⟨q, r, hquotient, hremainder, _, honly, _, hquotient', hremainder'⟩ :=
    quotient_remainder_rational (-15 / 2) (b := 2) (by norm_num)
  have h : IsEuclidean (-15 / 2) 2 (-4) (1 / 2) := ⟨by norm_num, by norm_num, by norm_num⟩
  obtain ⟨rfl, rfl⟩ := honly _ _ h
  refine ⟨by rw [hquotient]; norm_num, hremainder, by rw [hquotient']; norm_num, hremainder'⟩

end FlightCurve

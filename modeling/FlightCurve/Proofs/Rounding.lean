import Mathlib
import FlightCurve.Number.Decimal

/-!
Rounding to 53 significant bits. A finite double is a whole number of units of `2 ^ -1074`, so the
rounding of a sum is that of a natural number: to a multiple of a power of two that leaves 53 bits,
the even one of two that are equally near.

Rounding keeps what a double can hold, misses the number by half a unit in the last place at most,
and by no more than anything else that a double can hold.
-/

namespace FlightCurve

namespace Decimal

variable {num den : Nat}

theorem roundHalfEven_mul (num den : Nat) {k : Nat} (hk : 0 < k) :
    roundHalfEven (num * k) (den * k) = roundHalfEven num den := by
  have hdiv : num * k / (den * k) = num / den := Nat.mul_div_mul_right num den hk
  have hmod : num * k % (den * k) = num % den * k := Nat.mul_mod_mul_right k num den
  have hlt : den * k < 2 * (num % den * k) ↔ den < 2 * (num % den) := by
    rw [← Nat.mul_assoc, Nat.mul_lt_mul_right hk]
  have heq : den * k = 2 * (num % den * k) ↔ den = 2 * (num % den) := by
    rw [← Nat.mul_assoc, Nat.mul_left_inj (by omega)]
  rw [roundHalfEven, roundHalfEven, hdiv, hmod]
  simp only [hlt, heq]

theorem roundHalfEven_of_dvd (h : den ∣ num) : roundHalfEven num den = num / den := by
  have hmod : num % den = 0 := Nat.mod_eq_zero_of_dvd h
  rw [roundHalfEven, hmod, if_neg]
  rintro (hlt | ⟨heq, hodd⟩)
  · omega
  · rw [heq, Nat.mul_zero, Nat.div_zero] at hodd
    omega

/-- The integer part, or the number after it. -/
theorem roundHalfEven_cases (num den : Nat) :
    roundHalfEven num den = num / den ∨ roundHalfEven num den = num / den + 1 := by
  unfold roundHalfEven
  dsimp only
  split
  · exact .inr rfl
  · exact .inl rfl

/-- What is rounded to lies half a step away at most. -/
theorem roundHalfEven_near (hden : 0 < den) :
    2 * num ≤ 2 * (roundHalfEven num den * den) + den ∧
      2 * (roundHalfEven num den * den) ≤ 2 * num + den := by
  have hnum := Nat.div_add_mod' num den
  have hmod := Nat.mod_lt num hden
  unfold roundHalfEven
  dsimp only
  split
  · rw [Nat.add_mul, Nat.one_mul]
    omega
  · omega

end Decimal

namespace Double

/-- The step between neighbouring doubles about a number of units. -/
def spacing (n : Nat) : Nat := 2 ^ (n.log2 - 52)

/-- A number of units in 53 bits, with an even last one of two that are equally near. -/
def rounded (n : Nat) : Nat := Decimal.roundHalfEven n (spacing n) * spacing n

/-- A number of units that fits into 53 bits, but for zeros behind them. -/
def IsShort (n : Nat) : Prop := ∃ m k, m < 2 ^ 53 ∧ n = m * 2 ^ k

theorem spacing_pos (n : Nat) : 0 < spacing n := Nat.two_pow_pos _

/-- The step is small against the number. -/
theorem spacing_mul_le {n : Nat} (h : 2 ^ 53 ≤ n) : spacing n * 2 ^ 52 ≤ n := by
  have hn : n ≠ 0 := by omega
  have hlog : 53 ≤ n.log2 := (Nat.le_log2 hn).2 h
  rw [spacing, ← Nat.pow_add, Nat.sub_add_cancel (by omega)]
  exact Nat.log2_self_le hn

theorem lt_spacing_mul (n : Nat) : n < spacing n * 2 ^ 53 := by
  rw [spacing, ← Nat.pow_add]
  exact Nat.lt_log2_self.trans_le (Nat.pow_le_pow_right (by decide) (by omega))

theorem log2_le_of_lt {n : Nat} (h : n < 2 ^ 53) : n.log2 ≤ 52 := by
  by_cases hzero : n = 0
  · simp [hzero]
  · exact Nat.le_of_lt_succ ((Nat.log2_lt hzero).2 h)

/-- Below `2 ^ 53` the step is one unit. -/
theorem spacing_of_lt {n : Nat} (h : n < 2 ^ 53) : spacing n = 1 := by
  rw [spacing, Nat.sub_eq_zero_of_le (log2_le_of_lt h), Nat.pow_zero]

theorem isShort_of_lt {n : Nat} (h : n < 2 ^ 53) : IsShort n := ⟨n, 0, h, by simp⟩

/-- A number in few bits is a multiple of the step about every number that is not above it. -/
theorem IsShort.spacing_dvd {r n : Nat} (hr : IsShort r) (h : n.log2 ≤ r.log2) :
    spacing n ∣ r := by
  obtain ⟨m, k, hm, rfl⟩ := hr
  by_cases hzero : m = 0
  · simp [hzero]
  · have hlog : (m * 2 ^ k).log2 < 53 + k := by
      rw [Nat.log2_lt (by positivity), Nat.pow_add]
      exact Nat.mul_lt_mul_of_pos_right hm (Nat.two_pow_pos k)
    exact Dvd.dvd.mul_left (Nat.pow_dvd_pow 2 (by omega)) m

theorem rounded_of_isShort {n : Nat} (h : IsShort n) : rounded n = n := by
  have hdvd := h.spacing_dvd (Nat.le_refl _)
  rw [rounded, Decimal.roundHalfEven_of_dvd hdvd, Nat.div_mul_cancel hdvd]

/-- Rounding misses a number by half a step at most, -/
theorem rounded_near (n : Nat) :
    2 * n ≤ 2 * rounded n + spacing n ∧ 2 * rounded n ≤ 2 * n + spacing n :=
  Decimal.roundHalfEven_near (spacing_pos n)

/-- and no multiple of the step is nearer to it. -/
theorem rounded_nearest_of_dvd {n r : Nat} (h : spacing n ∣ r) :
    ((rounded n : Int) - n).natAbs ≤ ((r : Int) - n).natAbs := by
  obtain ⟨hbelow, habove⟩ := rounded_near n
  by_cases heq : r = rounded n
  · rw [heq]
  · -- two multiples of the step are one step apart at least
    have hdvd : spacing n ∣ rounded n := Nat.dvd_mul_left _ _
    have happart : (spacing n : Int) ≤ ((r : Int) - rounded n).natAbs := by
      have hdiff : (spacing n : Int) ∣ (r : Int) - rounded n :=
        dvd_sub (Int.natCast_dvd_natCast.2 h) (Int.natCast_dvd_natCast.2 hdvd)
      have hle := Int.natAbs_le_of_dvd_ne_zero hdiff (by omega)
      rw [Int.natAbs_natCast] at hle
      exact_mod_cast hle
    omega

/-- Nothing that fits into 53 bits is nearer to a number than what it is rounded to. -/
theorem rounded_nearest {n r : Nat} (hr : IsShort r) :
    ((rounded n : Int) - n).natAbs ≤ ((r : Int) - n).natAbs := by
  by_cases hlog : n.log2 ≤ r.log2
  · exact rounded_nearest_of_dvd (hr.spacing_dvd hlog)
  · -- the power of two below the number lies between the two
    have hn : n ≠ 0 := by
      rintro rfl
      simp at hlog
    have hpower : spacing n ∣ 2 ^ n.log2 := Nat.pow_dvd_pow 2 (by omega)
    have hle := rounded_nearest_of_dvd hpower
    have hbelow : 2 ^ n.log2 ≤ n := Nat.log2_self_le hn
    have hr : r < 2 ^ n.log2 := by
      by_cases hzero : r = 0
      · rw [hzero]
        exact Nat.two_pow_pos _
      · exact (Nat.log2_lt hzero).1 (by omega)
    omega

theorem rounded_error_le_spacing (n : Nat) :
    ((rounded n : Int) - n).natAbs * 2 ≤ spacing n := by
  obtain ⟨hbelow, habove⟩ := rounded_near n
  omega

/-- Rounding misses a number by a `2 ^ 53`-th of it at most. -/
theorem rounded_error_le (n : Nat) : ((rounded n : Int) - n).natAbs * 2 ^ 53 ≤ n := by
  by_cases hn : n < 2 ^ 53
  · rw [rounded_of_isShort (isShort_of_lt hn), Int.sub_self]
    simp
  · have herror := rounded_error_le_spacing n
    calc ((rounded n : Int) - n).natAbs * 2 ^ 53
        = ((rounded n : Int) - n).natAbs * 2 * 2 ^ 52 := by rw [Nat.mul_assoc, ← Nat.pow_succ']
      _ ≤ spacing n * 2 ^ 52 := Nat.mul_le_mul_right _ herror
      _ ≤ n := spacing_mul_le (Nat.le_of_not_lt hn)

/-- Rounding never goes below the power of two that leads a number. -/
theorem two_pow_log2_le_rounded {n : Nat} (hn : n ≠ 0) : 2 ^ n.log2 ≤ rounded n := by
  have hpower : spacing n ∣ 2 ^ n.log2 := Nat.pow_dvd_pow 2 (by omega)
  have hnearest := rounded_nearest_of_dvd hpower
  have hbelow : 2 ^ n.log2 ≤ n := Nat.log2_self_le hn
  omega

theorem log2_mul_two_pow {n : Nat} (hn : n ≠ 0) (k : Nat) :
    (n * 2 ^ k).log2 = n.log2 + k := by
  have hne : n * 2 ^ k ≠ 0 := Nat.mul_ne_zero hn (Nat.two_pow_pos k).ne'
  rw [Nat.log2_eq_iff hne, Nat.pow_add, Nat.add_right_comm, Nat.pow_add]
  exact ⟨Nat.mul_le_mul_right _ (Nat.log2_self_le hn),
    Nat.mul_lt_mul_of_pos_right Nat.lt_log2_self (Nat.two_pow_pos k)⟩

/-- Zeros at the end do not matter. -/
theorem rounded_mul_two_pow (n k : Nat) : rounded (n * 2 ^ k) = rounded n * 2 ^ k := by
  by_cases hn : n < 2 ^ 53
  · rw [rounded_of_isShort (isShort_of_lt hn), rounded_of_isShort ⟨n, k, hn, rfl⟩]
  · have hlog : (n * 2 ^ k).log2 = n.log2 + k := log2_mul_two_pow (by omega) k
    have hlow : 53 ≤ n.log2 := (Nat.le_log2 (by omega)).2 (Nat.le_of_not_lt hn)
    have hstep : spacing (n * 2 ^ k) = spacing n * 2 ^ k := by
      rw [spacing, spacing, hlog, Nat.sub_add_comm (by omega), Nat.pow_add]
    rw [rounded, hstep, Decimal.roundHalfEven_mul _ _ (Nat.two_pow_pos k), ← Nat.mul_assoc]
    rfl

/-- The step below a power of two. -/
theorem spacing_le {n q : Nat} (h : n < 2 ^ q * 2 ^ 54) : spacing n ≤ 2 * 2 ^ q := by
  rw [spacing, ← Nat.pow_succ']
  refine Nat.pow_le_pow_right (by decide) ?_
  by_cases hn : n = 0
  · simp [hn]
  · have : n.log2 < q + 54 := (Nat.log2_lt hn).2 (by rwa [Nat.pow_add])
    omega

/-- What lies half a step below a power of two, or less, is rounded to it. -/
theorem rounded_of_half_step {n q : Nat} (hlow : 2 ^ q * 2 ^ 54 - 2 ^ q ≤ n)
    (hhigh : n < 2 ^ q * 2 ^ 54) : rounded n = 2 ^ q * 2 ^ 54 := by
  have hunit := Nat.two_pow_pos q
  have hstep : spacing n = 2 * 2 ^ q := by
    have hlog : n.log2 = q + 53 := by
      rw [Nat.log2_eq_iff (by omega), Nat.add_assoc, Nat.pow_add, Nat.pow_add]
      omega
    rw [spacing, hlog, ← Nat.pow_succ']
    rfl
  -- the mantissa has ones only, so a tie goes up
  obtain ⟨r, hr⟩ : ∃ r, n = 2 * 2 ^ q * (2 ^ 53 - 1) + r := ⟨n - 2 * 2 ^ q * (2 ^ 53 - 1), by omega⟩
  have hlt : r < 2 * 2 ^ q := by omega
  have hdiv : n / (2 * 2 ^ q) = 2 ^ 53 - 1 := by
    rw [hr, Nat.mul_add_div (by omega), Nat.div_eq_of_lt hlt, Nat.add_zero]
  have hmod : n % (2 * 2 ^ q) = r := by
    rw [hr, Nat.mul_add_mod, Nat.mod_eq_of_lt hlt]
  have hup : Decimal.roundHalfEven n (2 * 2 ^ q) = 2 ^ 53 := by
    rw [Decimal.roundHalfEven, hdiv, hmod, if_pos (by omega)]
    rfl
  rw [rounded, hstep, hup]
  omega

/-- A number is rounded to one below a power of two, unless it lies half a step below it, or
less. -/
theorem rounded_lt_two_pow_iff (n q : Nat) :
    rounded n < 2 ^ q * 2 ^ 54 ↔ n < 2 ^ q * 2 ^ 54 - 2 ^ q := by
  have hunit := Nat.two_pow_pos q
  constructor
  · intro h
    by_contra hle
    by_cases hhigh : n < 2 ^ q * 2 ^ 54
    · rw [rounded_of_half_step (by omega) hhigh] at h
      exact Nat.lt_irrefl _ h
    · have hn : n ≠ 0 := by omega
      have hlog : q + 54 ≤ n.log2 := (Nat.le_log2 hn).2 (by rw [Nat.pow_add]; omega)
      have hpower : 2 ^ (q + 54) ≤ 2 ^ n.log2 := Nat.pow_le_pow_right (by decide) hlog
      have := two_pow_log2_le_rounded hn
      rw [Nat.pow_add] at hpower
      omega
  · intro h
    have hstep : spacing n ≤ 2 * 2 ^ q := spacing_le (by omega)
    have := (rounded_near n).2
    omega

/-- A number of units with a sign, rounded. -/
def nearest (n : Int) : Int := if n < 0 then -(rounded n.natAbs : Int) else rounded n.natAbs

theorem nearest_of_isShort {n : Int} (h : IsShort n.natAbs) : nearest n = n := by
  rw [nearest, rounded_of_isShort h]
  split <;> omega

theorem natAbs_nearest_sub (n : Int) :
    (nearest n - n).natAbs = ((rounded n.natAbs : Int) - n.natAbs).natAbs := by
  unfold nearest
  split <;> omega

theorem nearest_error_le_spacing (n : Int) :
    (nearest n - n).natAbs * 2 ≤ spacing n.natAbs := by
  rw [natAbs_nearest_sub]
  exact rounded_error_le_spacing n.natAbs

theorem nearest_error_le (n : Int) : (nearest n - n).natAbs * 2 ^ 53 ≤ n.natAbs := by
  rw [natAbs_nearest_sub]
  exact rounded_error_le n.natAbs

theorem nearest_nearest {n r : Int} (hr : IsShort r.natAbs) :
    (nearest n - n).natAbs ≤ (r - n).natAbs := by
  rw [natAbs_nearest_sub]
  have := rounded_nearest (n := n.natAbs) hr
  omega

end Double

/-! Rounding in the model of doubles -/

namespace Double

open Float.Model Float.Model.UnpackedFloat

/-- A mantissa and an exponent in the form in which doubles are stored. -/
structure Canonical (m : Nat) (e : Int) : Prop where
  lt : m < 2 ^ 53
  le : -1074 ≤ e
  full : e = -1074 ∨ 2 ^ 52 ≤ m

/-- The number of units that a mantissa and an exponent stand for. -/
def unitsOf (m : Nat) (e : Int) : Nat := m * 2 ^ (e + 1074).toNat

theorem unitsOf_pos {m : Nat} (hm : 0 < m) (e : Int) : 0 < unitsOf m e :=
  Nat.mul_pos hm (Nat.two_pow_pos _)

/-- A mantissa with zeros behind it stands for as many units at a lower exponent. -/
theorem unitsOf_mul_two_pow (m k : Nat) {e : Int} (he : -1074 ≤ e - k) :
    unitsOf (m * 2 ^ k) (e - k) = unitsOf m e := by
  have hexponent : (e + 1074).toNat = k + (e - k + 1074).toNat := by omega
  rw [unitsOf, unitsOf, hexponent, Nat.pow_add, ← Nat.mul_assoc]

theorem unitsOf_shiftLeft (m : Nat) {e low : Int} (hlow : -1074 ≤ low) (hle : low ≤ e) :
    unitsOf (m <<< (e - low).toNat) low = unitsOf m e := by
  have hexponent : low = e - (e - low).toNat := by omega
  rw [Nat.shiftLeft_eq, ← unitsOf_mul_two_pow m (e - low).toNat (by omega), ← hexponent]

/-- A number that is stored at a greater exponent is greater. -/
theorem Canonical.unitsOf_lt {m m' : Nat} {e e' : Int} (h : Canonical m e) (h' : Canonical m' e')
    (hlt : e < e') : unitsOf m e < unitsOf m' e' := by
  have hle := h.le
  have hfull : 2 ^ 52 ≤ m' := h'.full.resolve_left (by omega)
  have hexponent : (e' + 1074).toNat = (e' - e - 1).toNat + (1 + (e + 1074).toNat) := by omega
  have hpower := Nat.two_pow_pos (e' - e - 1).toNat
  have hmantissa : m < m' * 2 ^ (e' - e - 1).toNat * 2 :=
    calc m < 2 ^ 52 * 1 * 2 := h.lt
      _ ≤ m' * 2 ^ (e' - e - 1).toNat * 2 := by gcongr; omega
  rw [unitsOf, unitsOf, hexponent, Nat.pow_add, Nat.pow_add, Nat.pow_one, ← Nat.mul_assoc,
    ← Nat.mul_assoc]
  exact Nat.mul_lt_mul_of_pos_right hmantissa (Nat.two_pow_pos _)

/-- A number has one stored form. -/
theorem Canonical.unique {m m' : Nat} {e e' : Int} (h : Canonical m e) (h' : Canonical m' e')
    (hunits : unitsOf m e = unitsOf m' e') : m = m' ∧ e = e' := by
  have hle := h.le
  have hle' := h'.le
  rcases lt_trichotomy e e' with hlt | rfl | hlt
  · exact absurd hunits (h.unitsOf_lt h' hlt).ne
  · exact ⟨Nat.eq_of_mul_eq_mul_right (Nat.two_pow_pos _) hunits, rfl⟩
  · exact absurd hunits.symm (h'.unitsOf_lt h hlt).ne

/-- The bit that is shifted out next, and whether anything was shifted out before it. -/
theorem shifted_bits {p r bit : Nat} (hr : r < p) (hbit : bit = 0 ∨ bit = 1) :
    (bit != 0) = decide (p * 2 ≤ 2 * (r + p * bit)) ∧
      (decide (p ≤ 2 * r) || decide (r ≠ 0 ∧ 2 * r ≠ p)) =
        decide (r + p * bit ≠ 0 ∧ 2 * (r + p * bit) ≠ p * 2) := by
  constructor
  · rw [Bool.eq_iff_iff, bne_iff_ne, decide_eq_true_eq]
    rcases hbit with rfl | rfl <;> omega
  · rw [Bool.eq_iff_iff, Bool.or_eq_true, decide_eq_true_eq, decide_eq_true_eq, decide_eq_true_eq]
    rcases hbit with rfl | rfl <;> omega

/-- The integer part of a ratio, with the two bits that say where the rest of it lies. -/
def ofRatio (num den : Nat) : ExtendedMantissa :=
  ⟨num / den, decide (den ≤ 2 * (num % den)), decide (num % den ≠ 0 ∧ 2 * (num % den) ≠ den)⟩

theorem ofRatio_one (m : Nat) : ofRatio m 1 = ⟨m, false, false⟩ := by
  simp [ofRatio, Nat.mod_one]

theorem shiftRightOne_ofRatio (num : Nat) {den : Nat} (hden : 0 < den) :
    (ofRatio num den).shiftRightOne = ofRatio num (den * 2) := by
  have hbits := shifted_bits (Nat.mod_lt num hden) (Nat.mod_two_eq_zero_or_one (num / den))
  have hmod : num % (den * 2) = num % den + den * (num / den % 2) := Nat.mod_mul
  simp only [ofRatio, ExtendedMantissa.shiftRightOne]
  rw [hmod, ← Nat.div_div_eq_div_mul, hbits.1, hbits.2]

/-- To shift is to divide by more. -/
theorem shiftRight_ofRatio (num : Nat) {den : Nat} (hden : 0 < den) (k : Nat) :
    ofRatio num den >>> k = ofRatio num (den * 2 ^ k) := by
  change Nat.repeat ExtendedMantissa.shiftRightOne k _ = _
  induction k with
  | zero => rw [Nat.repeat, Nat.pow_zero, Nat.mul_one]
  | succ k ih =>
      rw [Nat.repeat, ih, shiftRightOne_ofRatio num (Nat.mul_pos hden (Nat.two_pow_pos k)),
        Nat.mul_assoc, ← Nat.pow_succ]

theorem shiftRight_exact (m k : Nat) :
    (ExtendedMantissa.mk m false false) >>> k = ofRatio m (2 ^ k) := by
  rw [← ofRatio_one, shiftRight_ofRatio m Nat.one_pos, Nat.one_mul]

theorem roundedMantissa_ofRatio (num : Nat) {den : Nat} (hden : 0 < den) :
    (ofRatio num den).roundedMantissa = Decimal.roundHalfEven num den := by
  rw [ofRatio, ExtendedMantissa.roundedMantissa, Decimal.roundHalfEven]
  by_cases hround : den ≤ 2 * (num % den)
  · by_cases hsticky : num % den ≠ 0 ∧ 2 * (num % den) ≠ den
    · rw [decide_eq_true hround, decide_eq_true hsticky, if_pos (by omega)]
      rfl
    · rw [decide_eq_true hround, decide_eq_false hsticky]
      change num / den + num / den % 2 = _
      split <;> omega
  · rw [decide_eq_false hround, if_neg (by omega)]
    by_cases hsticky : num % den ≠ 0 ∧ 2 * (num % den) ≠ den
    · rw [decide_eq_true hsticky]
      rfl
    · rw [decide_eq_false hsticky]
      rfl

theorem roundedMantissa_shiftRight (m k : Nat) :
    ((ExtendedMantissa.mk m false false) >>> k).roundedMantissa =
      Decimal.roundHalfEven m (2 ^ k) := by
  rw [shiftRight_exact, roundedMantissa_ofRatio m (Nat.two_pow_pos k)]

/-- The exponent at which a number is stored. -/
theorem targetExponent_eq (m : Nat) (e : Int) :
    Format.binary64.targetExponent (totalExponent m e) = max (m.log2 + e - 52) (-1074) := by
  simp only [Format.targetExponent, totalExponent, Format.mantissaBits, Format.minExponent]
  norm_num
  omega

theorem shiftToTargetExponent_eq (m : Nat) (e : Int) (acc : Accuracy) :
    shiftToTargetExponent Format.binary64 m e acc =
      (ExtendedMantissa.ofMantissaAndAccuracy m acc >>>
          (max (m.log2 + e - 52) (-1074) - e).toNat,
        e + (max (m.log2 + e - 52) (-1074) - e).toNat) := by
  rw [shiftToTargetExponent, targetExponent_eq]
  rfl

theorem shiftToTargetExponent_exact (m : Nat) (e : Int) :
    shiftToTargetExponent Format.binary64 m e .exact =
      ((ExtendedMantissa.mk m false false) >>> (max (m.log2 + e - 52) (-1074) - e).toNat,
        e + (max (m.log2 + e - 52) (-1074) - e).toNat) :=
  shiftToTargetExponent_eq m e .exact

/-- A number in the stored form is not shifted. -/
theorem Canonical.shift {m : Nat} {e : Int} (h : Canonical m e) :
    shiftToTargetExponent Format.binary64 m e .exact = (⟨m, false, false⟩, e) := by
  have hlog := log2_le_of_lt h.lt
  have hle := h.le
  have hzero : (max (m.log2 + e - 52) (-1074) - e).toNat = 0 := by omega
  rw [shiftToTargetExponent_exact, hzero, shiftRight_exact, Nat.pow_zero, ofRatio_one]
  simp

/-- A mantissa with a carry is shifted once more. -/
theorem shift_carry {e : Int} (h : -1074 ≤ e) :
    shiftToTargetExponent Format.binary64 (2 ^ 53) e .exact = (⟨2 ^ 52, false, false⟩, e + 1) := by
  have hone : (max (((2 ^ 53 : Nat).log2 : Int) + e - 52) (-1074) - e).toNat = 1 := by
    rw [Nat.log2_two_pow]
    omega
  rw [shiftToTargetExponent_exact, hone, shiftRight_exact]
  rfl

/-- A finite number in the stored form, with its sign and its number of units. -/
def Stores (u : UnpackedFloat) (s : Sign) (n : Nat) : Prop :=
  ∃ m e, ∃ h : 0 < m, u = .finite s m e h ∧ Canonical m e ∧ unitsOf m e = n

/-- Once the bits after the last place are dropped, what is left is stored, with a carry or
without. -/
theorem stores_of_shift {s : Sign} {m r : Nat} {e e₁ : Int} {acc : Accuracy}
    {em : ExtendedMantissa} (hfirst : shiftToTargetExponent Format.binary64 m e acc = (em, e₁))
    (hr : em.roundedMantissa = r) (hpos : 0 < r) (hle : r ≤ 2 ^ 53) (hlow : -1074 ≤ e₁)
    (hfull : e₁ = -1074 ∨ 2 ^ 52 ≤ r) :
    Stores (roundWithAccuracy Format.binary64 s m e acc) s (unitsOf r e₁) := by
  rcases Nat.lt_or_eq_of_le hle with hlt | heq
  · have hcanonical : Canonical r e₁ := ⟨hlt, hlow, hfull⟩
    refine ⟨r, e₁, hpos, ?_, hcanonical, rfl⟩
    simp only [roundWithAccuracy, hfirst, hr, hcanonical.shift]
    rw [dif_neg (by omega)]
  · have hcanonical : Canonical (2 ^ 52) (e₁ + 1) := ⟨by decide, by omega, .inr (Nat.le_refl _)⟩
    refine ⟨2 ^ 52, e₁ + 1, by decide, ?_, hcanonical, ?_⟩
    · simp only [roundWithAccuracy, hfirst, hr, heq, shift_carry hlow]
      rfl
    · have hexponent : (e₁ + 1 + 1074).toNat = (e₁ + 1074).toNat + 1 := by omega
      rw [unitsOf, unitsOf, heq, hexponent, pow_succ (2 : Nat) (e₁ + 1074).toNat]
      omega

theorem stores_roundWithAccuracy (s : Sign) {m : Nat} {e : Int} (hm : 0 < m) (hlow : -1074 ≤ e)
    (he : 52 ≤ m.log2 ∨ e = -1074) :
    Stores (roundWithAccuracy Format.binary64 s m e .exact) s (rounded (unitsOf m e)) := by
  have hshift : (max (m.log2 + e - 52) (-1074) - e).toNat = m.log2 - 52 := by omega
  have hfirst := shiftToTargetExponent_exact m e
  rw [hshift] at hfirst
  have hr := roundedMantissa_shiftRight m (m.log2 - 52)
  have hquotient : m / 2 ^ (m.log2 - 52) < 2 ^ 53 :=
    (Nat.div_lt_iff_lt_mul (spacing_pos m)).2 (Nat.mul_comm _ _ ▸ lt_spacing_mul m)
  have hcases := Decimal.roundHalfEven_cases m (2 ^ (m.log2 - 52))
  have hfull : 52 ≤ m.log2 → 2 ^ 52 ≤ m / 2 ^ (m.log2 - 52) := by
    intro hlog
    rw [Nat.le_div_iff_mul_le (Nat.two_pow_pos _), ← Nat.pow_add, Nat.add_sub_cancel' hlog]
    exact Nat.log2_self_le (by omega)
  have hsmall : m.log2 < 52 → m / 2 ^ (m.log2 - 52) = m := by
    intro hlog
    rw [Nat.sub_eq_zero_of_le (by omega), Nat.pow_zero, Nat.div_one]
  have hunits : unitsOf (Decimal.roundHalfEven m (2 ^ (m.log2 - 52))) (e + (m.log2 - 52 : Nat)) =
      rounded (unitsOf m e) := by
    have hexponent : (e + (m.log2 - 52 : Nat) + 1074).toNat =
        (m.log2 - 52) + (e + 1074).toNat := by omega
    rw [unitsOf, unitsOf, rounded_mul_two_pow, hexponent, Nat.pow_add, ← Nat.mul_assoc]
    rfl
  rw [← hunits]
  refine stores_of_shift hfirst hr ?_ ?_ (by omega) ?_
  · by_cases hlog : 52 ≤ m.log2
    · have := hfull hlog
      omega
    · have := hsmall (by omega)
      omega
  · omega
  · by_cases hlog : 52 ≤ m.log2
    · have := hfull hlog
      omega
    · omega

/-- Rounding a positive number that is a whole number of units. -/
theorem stores_round (s : Sign) {m : Nat} {e : Int} (hm : 0 < m) (hlow : -1074 ≤ e) :
    Stores (round Format.binary64 s m e) s (rounded (unitsOf m e)) := by
  let k := (e - max (m.log2 + e - 52) (-1074)).toNat
  have hround : round Format.binary64 s m e =
      roundWithAccuracy Format.binary64 s (m * 2 ^ k) (e - k) .exact := by
    rw [UnpackedFloat.round, targetExponent_eq, decreaseExponent, Nat.shiftLeft_eq]
  have hunits : unitsOf (m * 2 ^ k) (e - k) = unitsOf m e := unitsOf_mul_two_pow m k (by omega)
  have hlog : (m * 2 ^ k).log2 = m.log2 + k := log2_mul_two_pow (by omega) k
  rw [hround, ← hunits]
  refine stores_roundWithAccuracy s (Nat.mul_pos hm (Nat.two_pow_pos k)) (by omega) ?_
  rw [hlog]
  omega

end Double

end FlightCurve

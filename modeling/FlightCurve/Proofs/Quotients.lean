import FlightCurve.Proofs.Doubles

/-!
Rounding of ratios, and division of doubles. A ratio of two numbers of units is rounded as a number
of units is: to a multiple of the step about its integer part. What fits into 53 bits is never
crossed by that, and is the result where it is less than half a step away.

The main fact is that the quotient of two finite doubles is the exact one, rounded in this way.
-/

namespace FlightCurve

namespace Decimal

variable {num den r : Nat}

theorem le_roundHalfEven (hden : 0 < den) (h : r * den ≤ num) : r ≤ roundHalfEven num den := by
  have hle : r ≤ num / den := (Nat.le_div_iff_mul_le hden).2 h
  rcases roundHalfEven_cases num den with heq | heq <;> omega

theorem roundHalfEven_le (hden : 0 < den) (h : num ≤ r * den) : roundHalfEven num den ≤ r := by
  rcases Nat.lt_or_eq_of_le h with hlt | rfl
  · have hless : num / den < r := (Nat.div_lt_iff_lt_mul hden).2 hlt
    rcases roundHalfEven_cases num den with heq | heq <;> omega
  · rw [roundHalfEven_of_dvd (Nat.dvd_mul_left den r), Nat.mul_div_cancel r hden]

theorem roundHalfEven_mono {num' : Nat} (den : Nat) (h : num ≤ num') :
    roundHalfEven num den ≤ roundHalfEven num' den := by
  have hnum := Nat.div_add_mod' num den
  have hnum' := Nat.div_add_mod' num' den
  rcases Nat.lt_or_eq_of_le (Nat.div_le_div_right (c := den) h) with hlt | heq
  · rcases roundHalfEven_cases num den with hcase | hcase <;>
      rcases roundHalfEven_cases num' den with hcase' | hcase' <;> omega
  · -- what is left decides, and there is no less of it
    rw [heq] at hnum
    rw [roundHalfEven, roundHalfEven, heq]
    split <;> split <;> omega

/-- The only number that is less than half a step away. -/
theorem roundHalfEven_eq_of_close (hden : 0 < den) (hbelow : 2 * num < 2 * (r * den) + den)
    (habove : 2 * (r * den) < 2 * num + den) : roundHalfEven num den = r := by
  obtain ⟨hlow, hhigh⟩ := @roundHalfEven_near num den hden
  have hle : roundHalfEven num den < r + 1 := by
    refine Nat.lt_of_mul_lt_mul_right (a := den) ?_
    rw [Nat.add_mul]
    omega
  have hge : r < roundHalfEven num den + 1 := by
    refine Nat.lt_of_mul_lt_mul_right (a := den) ?_
    rw [Nat.add_mul]
    omega
  omega

/-- What is rounded up to a multiple above it. -/
theorem roundHalfEven_eq_iff (h : num < r * den) : roundHalfEven num den = r ↔
    2 * (r * den - num) < den ∨ 2 * (r * den - num) = den ∧ 2 ∣ r := by
  have hden : 0 < den := Nat.pos_of_mul_pos_left (Nat.zero_lt_of_lt h)
  have hnum := Nat.div_add_mod' num den
  have hmod := Nat.mod_lt num hden
  have hlt : num / den < r := (Nat.div_lt_iff_lt_mul hden).2 h
  obtain ⟨k, rfl⟩ : ∃ k, r = num / den + 1 + k := ⟨r - (num / den + 1), by omega⟩
  have hmul : (num / den + 1 + k) * den = num / den * den + den + k * den := by ring
  rw [hmul]
  rcases Nat.eq_zero_or_pos k with rfl | hk
  · unfold roundHalfEven
    dsimp only
    split <;> omega
  · -- two multiples above the number are too far away
    have hfar : den ≤ k * den := Nat.le_mul_of_pos_left den hk
    rcases roundHalfEven_cases num den with heq | heq <;> omega

end Decimal

namespace Double

/-! Rounded ratios -/

/-- A ratio of numbers of units in 53 bits, with an even last one of two that are equally near. -/
def roundedRatio (num den : Nat) : Nat :=
  Decimal.roundHalfEven num (den * spacing (num / den)) * spacing (num / den)

section Ratio

variable {num den r : Nat}

/-- Only the ratio counts. -/
theorem roundedRatio_mul (num den : Nat) {k : Nat} (hk : 0 < k) :
    roundedRatio (num * k) (den * k) = roundedRatio num den := by
  rw [roundedRatio, Nat.mul_div_mul_right num den hk, Nat.mul_right_comm,
    Decimal.roundHalfEven_mul _ _ hk]
  rfl

theorem roundedRatio_mul_right (num den : Nat) : roundedRatio num den * den =
    Decimal.roundHalfEven num (den * spacing (num / den)) * (den * spacing (num / den)) := by
  rw [roundedRatio, Nat.mul_assoc, Nat.mul_comm den]

/-- Rounding misses a ratio by half a step at most. -/
theorem roundedRatio_near (num : Nat) (hden : 0 < den) :
    2 * num ≤ 2 * (roundedRatio num den * den) + den * spacing (num / den) ∧
      2 * (roundedRatio num den * den) ≤ 2 * num + den * spacing (num / den) := by
  rw [roundedRatio_mul_right]
  exact Decimal.roundHalfEven_near (Nat.mul_pos hden (spacing_pos _))

theorem log2_le_log2 {m n : Nat} (h : m ≤ n) : m.log2 ≤ n.log2 := by
  rw [Nat.log2_eq_log_two, Nat.log2_eq_log_two]
  exact Nat.log_mono_right h

theorem le_roundedRatio_of_dvd (hden : 0 < den) (hdvd : spacing (num / den) ∣ r)
    (h : r * den ≤ num) : r ≤ roundedRatio num den := by
  obtain ⟨k, hk⟩ := hdvd
  rw [roundedRatio, hk, Nat.mul_comm]
  refine Nat.mul_le_mul_right _ (Decimal.le_roundHalfEven (Nat.mul_pos hden (spacing_pos _)) ?_)
  calc k * (den * spacing (num / den)) = r * den := by rw [hk]; ring
    _ ≤ num := h

/-- What fits into 53 bits and is not above the ratio is not above the rounded one, -/
theorem le_roundedRatio (hden : 0 < den) (hr : IsShort r) (h : r * den ≤ num) :
    r ≤ roundedRatio num den := by
  by_cases hlog : (num / den).log2 ≤ r.log2
  · exact le_roundedRatio_of_dvd hden (hr.spacing_dvd hlog) h
  · -- the power of two below the ratio lies between the two
    have hne : num / den ≠ 0 := by
      intro hzero
      rw [hzero] at hlog
      simp at hlog
    have hlt : r < 2 ^ (num / den).log2 := by
      by_cases hzero : r = 0
      · rw [hzero]
        exact Nat.two_pow_pos _
      · exact (Nat.log2_lt hzero).1 (by omega)
    have hpower : 2 ^ (num / den).log2 * den ≤ num :=
      (Nat.le_div_iff_mul_le hden).1 (Nat.log2_self_le hne)
    exact hlt.le.trans (le_roundedRatio_of_dvd hden (Nat.pow_dvd_pow 2 (by omega)) hpower)

/-- and what is not below the ratio is not below the rounded one. -/
theorem roundedRatio_le (hden : 0 < den) (hr : IsShort r) (h : num ≤ r * den) :
    roundedRatio num den ≤ r := by
  have hlog : (num / den).log2 ≤ r.log2 :=
    log2_le_log2 (Nat.div_le_of_le_mul (Nat.mul_comm r den ▸ h))
  obtain ⟨k, hk⟩ := hr.spacing_dvd hlog
  rw [roundedRatio, Nat.mul_comm, hk]
  refine Nat.mul_le_mul_left _ (Decimal.roundHalfEven_le (Nat.mul_pos hden (spacing_pos _)) ?_)
  calc num ≤ r * den := h
    _ = k * (den * spacing (num / den)) := by rw [hk]; ring

/-- Rounding keeps the order, also where the step changes at a power of two. -/
theorem roundedRatio_mono {num' : Nat} (hden : 0 < den) (h : num ≤ num') :
    roundedRatio num den ≤ roundedRatio num' den := by
  have hdiv : num / den ≤ num' / den := Nat.div_le_div_right h
  by_cases hlog : (num' / den).log2 ≤ (num / den).log2
  · have hstep : spacing (num / den) = spacing (num' / den) := by
      rw [spacing, spacing, Nat.le_antisymm (log2_le_log2 hdiv) hlog]
    rw [roundedRatio, roundedRatio, hstep]
    exact Nat.mul_le_mul_right _ (Decimal.roundHalfEven_mono _ h)
  · -- the power of two that leads the greater ratio lies between the two
    have hpower : IsShort (2 ^ (num' / den).log2) := ⟨1, _, by decide, (Nat.one_mul _).symm⟩
    have hbelow : num / den < 2 ^ (num' / den).log2 := by
      by_cases hzero : num / den = 0
      · rw [hzero]
        exact Nat.two_pow_pos _
      · exact (Nat.log2_lt hzero).1 (by omega)
    have habove : 2 ^ (num' / den).log2 * den ≤ num' := by
      refine (Nat.le_div_iff_mul_le hden).1 (Nat.log2_self_le ?_)
      intro hzero
      simp [hzero] at hlog
    exact (roundedRatio_le hden hpower ((Nat.div_lt_iff_lt_mul hden).1 hbelow).le).trans
      (le_roundedRatio hden hpower habove)

/-- A multiple of the step that is less than half a step away is what the ratio is rounded to. -/
theorem roundedRatio_eq_of_close (hden : 0 < den) (hdvd : spacing (num / den) ∣ r)
    (hbelow : 2 * num < 2 * (r * den) + den * spacing (num / den))
    (habove : 2 * (r * den) < 2 * num + den * spacing (num / den)) : roundedRatio num den = r := by
  obtain ⟨k, hk⟩ := hdvd
  have hmul : r * den = k * (den * spacing (num / den)) := by
    rw [hk]
    ring
  rw [hmul] at hbelow habove
  have hround := Decimal.roundHalfEven_eq_of_close (Nat.mul_pos hden (spacing_pos _)) hbelow habove
  rw [roundedRatio, hround, hk, Nat.mul_comm]

theorem roundedRatio_of_lt (h : num / den < 2 ^ 53) :
    roundedRatio num den = Decimal.roundHalfEven num den := by
  rw [roundedRatio, spacing_of_lt h, Nat.mul_one, Nat.mul_one]

theorem mul_two_pow_div_div (num den k : Nat) : num * 2 ^ k / den / 2 ^ k = num / den := by
  rw [Nat.div_div_eq_div_mul, Nat.mul_div_mul_right _ _ (Nat.two_pow_pos k)]

/-- Zeros at the end of the dividend add as many bits to the quotient. -/
theorem log2_mul_two_pow_div {k : Nat} (h : num / den ≠ 0) :
    (num * 2 ^ k / den).log2 = (num / den).log2 + k := by
  have hcut := mul_two_pow_div_div num den k
  have hne : num * 2 ^ k / den ≠ 0 := by
    intro hzero
    rw [hzero, Nat.zero_div] at hcut
    exact h hcut.symm
  rw [Nat.log2_eq_iff hne, Nat.add_right_comm, Nat.pow_add, Nat.pow_add,
    ← Nat.le_div_iff_mul_le (Nat.two_pow_pos k), ← Nat.div_lt_iff_lt_mul (Nat.two_pow_pos k), hcut]
  exact ⟨Nat.log2_self_le h, Nat.lt_log2_self⟩

/-- They do not matter otherwise, once the quotient has enough bits. -/
theorem roundedRatio_mul_two_pow {k : Nat} (h : 52 ≤ (num / den).log2 ∨ k = 0) :
    roundedRatio (num * 2 ^ k) den =
      Decimal.roundHalfEven num (den * 2 ^ ((num / den).log2 - 52)) *
        2 ^ ((num / den).log2 - 52 + k) := by
  have hlog : (num * 2 ^ k / den).log2 - 52 = (num / den).log2 - 52 + k := by
    rcases h with hlog | rfl
    · have hne : num / den ≠ 0 := by
        intro hzero
        rw [hzero] at hlog
        simp at hlog
      rw [log2_mul_two_pow_div hne]
      omega
    · rw [Nat.pow_zero, Nat.mul_one, Nat.add_zero]
  rw [roundedRatio, spacing, hlog, Nat.pow_add, ← Nat.mul_assoc den,
    Decimal.roundHalfEven_mul _ _ (Nat.two_pow_pos k)]

end Ratio

/-! Rounding in the model of doubles -/

open Float.Model Float.Model.UnpackedFloat

/-- The quotient that is cut off, with the two bits for what is left. -/
theorem ofMantissaAndAccuracy_div (num : Nat) {den : Nat} (hden : 0 < den) :
    ExtendedMantissa.ofMantissaAndAccuracy (num / den) (accuracyOfFraction (num % den) den) =
      ofRatio num den := by
  unfold accuracyOfFraction ofRatio
  by_cases hzero : num % den = 0
  · rw [if_pos hzero, hzero, decide_eq_false (by omega), decide_eq_false (by omega)]
    rfl
  · rw [if_neg hzero]
    rcases lt_trichotomy (2 * (num % den)) den with hlt | heq | hgt
    · rw [compare_lt_iff_lt.2 hlt, decide_eq_false (by omega), decide_eq_true (by omega)]
      rfl
    · rw [compare_eq_iff_eq.2 heq, decide_eq_true (by omega), decide_eq_false (by omega)]
      rfl
    · rw [compare_gt_iff_gt.2 hgt, decide_eq_true (by omega), decide_eq_true (by omega)]
      rfl

/-- Nothing is left when no bit before the last place is set. -/
theorem roundWithAccuracy_of_zero {s : Sign} {m : Nat} {e e₁ : Int} {acc : Accuracy}
    {em : ExtendedMantissa} (hfirst : shiftToTargetExponent Format.binary64 m e acc = (em, e₁))
    (hr : em.roundedMantissa = 0) :
    roundWithAccuracy Format.binary64 s m e acc = .zero s := by
  have hsecond : (shiftToTargetExponent Format.binary64 0 e₁ .exact).1.mantissa = 0 := by
    rw [shiftToTargetExponent_exact, shiftRight_exact]
    exact Nat.zero_div _
  simp only [roundWithAccuracy, hfirst, hr]
  rw [dif_pos hsecond]

theorem limit_pos : 0 < limit := Nat.mul_pos (Nat.two_pow_pos lastExponent) (Nat.two_pow_pos 54)

theorem holds_zero (s s' : Sign) : Holds (.ofModel (.pack (.zero s))) s' 0 := by
  have hstorable : Storable (.zero s) := trivial
  refine ⟨fun _ => ?_, fun hle => absurd limit_pos (Nat.not_lt.2 hle)⟩
  rw [units?_pack hstorable, unpackedUnits?]
  cases s' <;> rfl

/-- A ratio with enough bits before the point is rounded at the last place that is stored. -/
theorem holds_roundWithAccuracy (s : Sign) {p d : Nat} (hd : 0 < d) {t : Int} {j : Nat}
    (hj : t + j = max ((p / d).log2 + t - 52) (-1074)) :
    Holds (.ofModel (.pack (roundWithAccuracy Format.binary64 s (p / d) t
      (accuracyOfFraction (p % d) d)))) s
      (unitsOf (Decimal.roundHalfEven p (d * 2 ^ j)) (t + j)) := by
  have hpower := Nat.two_pow_pos j
  have hshift : (max ((p / d).log2 + t - 52) (-1074) - t).toNat = j := by omega
  have hfirst := shiftToTargetExponent_eq (p / d) t (accuracyOfFraction (p % d) d)
  rw [hshift, ofMantissaAndAccuracy_div p hd, shiftRight_ofRatio p hd] at hfirst
  have hr := roundedMantissa_ofRatio p (Nat.mul_pos hd hpower)
  have hcases := Decimal.roundHalfEven_cases p (d * 2 ^ j)
  rw [← Nat.div_div_eq_div_mul] at hcases
  have hlt : p / d / 2 ^ j < 2 ^ 53 := by
    rw [Nat.div_lt_iff_lt_mul hpower, ← Nat.pow_add]
    exact Nat.lt_log2_self.trans_le (Nat.pow_le_pow_right (by decide) (by omega))
  have hfull : t + j = -1074 ∨ 2 ^ 52 ≤ p / d / 2 ^ j := by
    by_cases hlow : t + j = -1074
    · exact .inl hlow
    · have hne : p / d ≠ 0 := by
        intro hzero
        rw [hzero, Nat.log2_zero] at hj
        omega
      refine .inr ((Nat.le_div_iff_mul_le hpower).2 ?_)
      rw [← Nat.pow_add]
      exact (Nat.pow_le_pow_right (by decide) (by omega)).trans (Nat.log2_self_le hne)
  by_cases hzero : Decimal.roundHalfEven p (d * 2 ^ j) = 0
  · rw [roundWithAccuracy_of_zero hfirst (hr.trans hzero), hzero, unitsOf, Nat.zero_mul]
    exact holds_zero s s
  · exact holds_of_stores
      (stores_of_shift hfirst hr (Nat.pos_of_ne_zero hzero) (by omega) (by omega) (by omega))

/-! Division -/

/-- The exponent of the number of units in one. It is kept from being evaluated too. -/
@[irreducible] def wholeExponent : Nat := 1074

theorem wholeExponent_eq : wholeExponent = 1074 := by
  unfold wholeExponent
  rfl

/-- The number of units in one. -/
def wholeUnits : Nat := 2 ^ wholeExponent

theorem wholeUnits_pos : 0 < wholeUnits := Nat.two_pow_pos _

theorem isShort_wholeUnits : IsShort wholeUnits :=
  ⟨1, wholeExponent, by decide, (Nat.one_mul _).symm⟩

theorem unitsOf_zero (n : Nat) : unitsOf n 0 = n * wholeUnits := by
  have hexponent : ((0 : Int) + 1074).toNat = wholeExponent := wholeExponent_eq.symm
  rw [unitsOf, hexponent, wholeUnits]

/-- The exponent down to which a quotient is computed before it is rounded. -/
theorem quotientExponent_eq (m₁ m₂ : Nat) (e₁ e₂ : Int) :
    Format.binary64.targetExponent (totalExponent m₁ e₁ - totalExponent m₂ e₂) =
      max (m₁.log2 + e₁ - m₂.log2 - e₂ - 53) (-1074) := by
  simp only [Format.targetExponent, totalExponent, Format.mantissaBits, Format.minExponent]
  norm_num
  omega

/-- Only the difference of the exponents counts. -/
theorem roundedRatio_two_pow (m₁ m₂ : Nat) {i i' j j' : Nat} (h : i + j' = i' + j) :
    roundedRatio (m₁ * 2 ^ i) (m₂ * 2 ^ j) = roundedRatio (m₁ * 2 ^ i') (m₂ * 2 ^ j') := by
  rw [← roundedRatio_mul (m₁ * 2 ^ i) _ (Nat.two_pow_pos j'),
    ← roundedRatio_mul (m₁ * 2 ^ i') _ (Nat.two_pow_pos j)]
  simp only [Nat.mul_assoc, ← Nat.pow_add]
  rw [h, Nat.add_comm j]

/-- The ratio of two numbers of units, in units again, from the two mantissas. -/
theorem roundedRatio_units (m₁ m₂ : Nat) {e₁ e₂ : Int} {i j : Nat} (hle₁ : -1074 ≤ e₁)
    (hle₂ : -1074 ≤ e₂) (h : e₁ - e₂ + 1074 = i - j) :
    roundedRatio (unitsOf m₁ e₁ * wholeUnits) (unitsOf m₂ e₂) =
      roundedRatio (m₁ * 2 ^ i) (m₂ * 2 ^ j) := by
  have hwhole := wholeExponent_eq
  have hexponents : (e₁ + 1074).toNat + wholeExponent + j = i + (e₂ + 1074).toNat := by omega
  rw [unitsOf, unitsOf, wholeUnits, Nat.mul_assoc, ← Nat.pow_add,
    roundedRatio_two_pow m₁ m₂ hexponents]

/-- A dividend that is longer by 53 bits leaves a quotient of 53 bits. -/
theorem le_log2_div {p m : Nat} (hp : p ≠ 0) (hm : 0 < m) (h : m.log2 + 53 ≤ p.log2) :
    52 ≤ (p / m).log2 := by
  have hquotient : 2 ^ 52 ≤ p / m := by
    rw [Nat.le_div_iff_mul_le hm]
    calc 2 ^ 52 * m ≤ 2 ^ 52 * 2 ^ (m.log2 + 1) := Nat.mul_le_mul_left _ Nat.lt_log2_self.le
      _ = 2 ^ (52 + (m.log2 + 1)) := (Nat.pow_add ..).symm
      _ ≤ 2 ^ p.log2 := Nat.pow_le_pow_right (by decide) (by omega)
      _ ≤ p := Nat.log2_self_le hp
  exact (Nat.le_log2 (by omega)).2 hquotient

/-- The quotient of two finite numbers. -/
theorem holds_div {s₁ s₂ : Sign} {m₁ m₂ : Nat} {e₁ e₂ : Int} {hm₁ : 0 < m₁} {hm₂ : 0 < m₂}
    (h₁ : Canonical m₁ e₁) (h₂ : Canonical m₂ e₂) :
    Holds (.ofModel (.pack (UnpackedFloat.div Format.binary64 (.finite s₁ m₁ e₁ hm₁)
      (.finite s₂ m₂ e₂ hm₂)))) (s₁ / s₂)
      (roundedRatio (unitsOf m₁ e₁ * wholeUnits) (unitsOf m₂ e₂)) := by
  obtain ⟨hlt, hle₁, _⟩ := h₁
  have hle₂ := h₂.le
  simp only [UnpackedFloat.div, divCore, quotientExponent_eq, Nat.shiftLeft_eq]
  generalize ht : min (e₁ - e₂) (max (m₁.log2 + e₁ - m₂.log2 - e₂ - 53) (-1074)) = t
  generalize hk : (e₁ - e₂ - t).toNat = k
  by_cases hlow : -1074 ≤ t
  · -- the quotient has 53 bits or more, or goes down to the last unit
    obtain ⟨c, hc⟩ : ∃ c : Nat, t + 1074 = c := ⟨(t + 1074).toNat, by omega⟩
    have hbits : 52 ≤ (m₁ * 2 ^ k / m₂).log2 ∨ c = 0 := by
      by_cases hzero : c = 0
      · exact .inr hzero
      · have hlog : (m₁ * 2 ^ k).log2 = m₁.log2 + k := log2_mul_two_pow hm₁.ne' k
        exact .inl (le_log2_div (Nat.mul_pos hm₁ (Nat.two_pow_pos k)).ne' hm₂ (by omega))
    have hratio : roundedRatio (unitsOf m₁ e₁ * wholeUnits) (unitsOf m₂ e₂) =
        roundedRatio (m₁ * 2 ^ k * 2 ^ c) m₂ := by
      rw [roundedRatio_units m₁ m₂ (i := k + c) (j := 0) hle₁ hle₂ (by omega), Nat.pow_add,
        Nat.pow_zero, Nat.mul_one, Nat.mul_assoc]
    have hrounded := holds_roundWithAccuracy (s₁ / s₂) (p := m₁ * 2 ^ k) hm₂ (t := t)
      (j := (m₁ * 2 ^ k / m₂).log2 - 52) (by omega)
    have hexponent : (t + ((m₁ * 2 ^ k / m₂).log2 - 52 : Nat) + 1074).toNat =
        (m₁ * 2 ^ k / m₂).log2 - 52 + c := by omega
    rwa [unitsOf, hexponent, ← roundedRatio_mul_two_pow hbits, ← hratio] at hrounded
  · -- the quotient of the mantissas lies below the last unit, and is shifted up to it
    obtain ⟨d, hd⟩ : ∃ d : Nat, t + d = -1074 := ⟨(-1074 - t).toNat, by omega⟩
    obtain rfl : k = 0 := by omega
    have hlog : (m₁ / m₂).log2 ≤ 52 := log2_le_of_lt ((Nat.div_le_self m₁ m₂).trans_lt hlt)
    have hratio : roundedRatio (unitsOf m₁ e₁ * wholeUnits) (unitsOf m₂ e₂) =
        Decimal.roundHalfEven m₁ (m₂ * 2 ^ d) := by
      have hsmall : m₁ / (m₂ * 2 ^ d) < 2 ^ 53 := (Nat.div_le_self _ _).trans_lt hlt
      rw [roundedRatio_units m₁ m₂ (i := 0) (j := d) hle₁ hle₂ (by omega), Nat.pow_zero,
        Nat.mul_one, roundedRatio_of_lt hsmall]
    have hrounded := holds_roundWithAccuracy (s₁ / s₂) (p := m₁) hm₂ (t := t) (j := d) (by omega)
    rw [hd, unitsOf, ← hratio] at hrounded
    simpa using hrounded

/-- The quotient of two numbers of units, rounded. -/
def nearestRatio (m n : Int) : Int :=
  m.sign * n.sign * roundedRatio (m.natAbs * wholeUnits) n.natAbs

theorem apply_div (s₁ s₂ : Sign) {k l : Nat} (hk : 0 < k) (hl : 0 < l) (r : Nat) :
    (s₁ / s₂).apply r = (s₁.apply k).sign * (s₂.apply l).sign * r := by
  have hk' : (k : Int).sign = 1 := Int.sign_eq_one_of_pos (by omega)
  have hl' : (l : Int).sign = 1 := Int.sign_eq_one_of_pos (by omega)
  cases s₁ <;> cases s₂ <;> simp [Sign.apply, HDiv.hDiv, Div.div, hk', hl']

theorem holds_div_unpacked {u v : UnpackedFloat} (hu : Storable u) (hv : Storable v) {m n : Int}
    (hm : unpackedUnits? u = some m) (hn : unpackedUnits? v = some n) (hzero : n ≠ 0) :
    ∃ s : Sign, s.apply (roundedRatio (m.natAbs * wholeUnits) n.natAbs) = nearestRatio m n ∧
      Holds (.ofModel (.pack (UnpackedFloat.div Format.binary64 u v))) s
        (roundedRatio (m.natAbs * wholeUnits) n.natAbs) := by
  rcases zero_or_finite hn with ⟨s₂, rfl, rfl⟩ | ⟨s₂, m₂, e₂, hm₂, rfl, rfl⟩
  · exact absurd rfl hzero
  · rcases zero_or_finite hm with ⟨s₁, rfl, rfl⟩ | ⟨s₁, m₁, e₁, hm₁, rfl, rfl⟩
    · have hnone : roundedRatio (Int.natAbs 0 * wholeUnits)
          (s₂.apply (unitsOf m₂ e₂)).natAbs = 0 := by
        simp [roundedRatio, Decimal.roundHalfEven]
      refine ⟨s₁, ?_, ?_⟩
      · rw [nearestRatio, hnone]
        cases s₁ <;> simp [Sign.apply]
      · rw [hnone]
        exact holds_zero (s₁ / s₂) s₁
    · have hunits₁ := unitsOf_pos hm₁ e₁
      have hunits₂ := unitsOf_pos hm₂ e₂
      rw [nearestRatio, natAbs_apply, natAbs_apply]
      exact ⟨s₁ / s₂, apply_div s₁ s₂ hunits₁ hunits₂ _, holds_div hu.1 hv.1⟩

/-- The quotient of two finite doubles. -/
theorem units?_div {x y : Float} {m n : Int} (hx : units? x = some m) (hy : units? y = some n)
    (hn : n ≠ 0) :
    (roundedRatio (m.natAbs * wholeUnits) n.natAbs < limit →
      units? (x / y) = some (nearestRatio m n)) ∧
    (limit ≤ roundedRatio (m.natAbs * wholeUnits) n.natAbs → (x / y).isInf = true) := by
  rw [units?_eq] at hx hy
  obtain ⟨s, hs, h⟩ := holds_div_unpacked (storable_unpack x.toModel) (storable_unpack y.toModel)
    hx hy hn
  exact ⟨fun hlt => hs ▸ h.finite hlt, h.infinite⟩

end Double

end FlightCurve

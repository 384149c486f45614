import FlightCurve.Arithmetic.Double
import FlightCurve.Proofs.Truncation

/-!
Euclidean division of doubles. The remainder is made from an exact one, the quotient from a rounded
ratio; so the two need not belong to the same division. Where the ratio is rounded up to the next
whole number, the quotient is one step further from zero than it should be; and the remainder
reaches the divisor where the sum that moves it up is rounded so.

The main statement says what both of them are for all finite doubles the ratio of which does not
overflow, when that is Euclidean division, and that it is on every grid of up to 53 bits.
-/

namespace FlightCurve

namespace Double

/-! Whole parts of rounded ratios -/

theorem isShort_mul_wholeUnits {k : Nat} (hk : k ≤ 2 ^ 53) : IsShort (k * wholeUnits) := by
  rcases Nat.lt_or_eq_of_le hk with hlt | rfl
  · exact ⟨k, wholeExponent, hlt, rfl⟩
  · refine ⟨1, 53 + wholeExponent, by decide, ?_⟩
    rw [Nat.one_mul, Nat.pow_add]
    rfl

section Whole

variable {p d q : Nat}

/-- A ratio is rounded to between the whole numbers on both sides of it, which are doubles as long
as they are not too large. -/
theorem roundedRatio_between (hd : 0 < d) (h : p / d < 2 ^ 53) :
    p / d * wholeUnits ≤ roundedRatio (p * wholeUnits) d ∧
      roundedRatio (p * wholeUnits) d ≤ (p / d + 1) * wholeUnits := by
  have hbelow : p / d * d ≤ p := Nat.div_mul_le_self p d
  have habove : p ≤ (p / d + 1) * d := (Nat.lt_div_mul_add hd).le.trans_eq (Nat.succ_mul ..).symm
  constructor
  · refine le_roundedRatio hd (isShort_mul_wholeUnits h.le) ?_
    rw [Nat.mul_right_comm]
    exact Nat.mul_le_mul_right _ hbelow
  · refine roundedRatio_le hd (isShort_mul_wholeUnits h) ?_
    rw [Nat.mul_right_comm]
    exact Nat.mul_le_mul_right _ habove

/-- Of large ratios the step is two at least, so a whole number that is a double and less than one
away is what they are rounded to. -/
theorem roundedRatio_eq_of_whole (hd : 0 < d) (h : 2 ^ 53 ≤ p / d)
    (hq : q = p / d ∨ q = p / d + 1 ∧ 0 < p % d) (hshort : IsShort (q * wholeUnits)) :
    roundedRatio (p * wholeUnits) d = q * wholeUnits := by
  have hne : p / d ≠ 0 := by omega
  have hbits : 53 ≤ (p / d).log2 := (Nat.le_log2 hne).2 h
  have hlog : (p * wholeUnits / d).log2 = (p / d).log2 + wholeExponent := log2_mul_two_pow_div hne
  have hstep : 2 * wholeUnits ≤ spacing (p * wholeUnits / d) := by
    rw [spacing, hlog, wholeUnits, ← Nat.pow_succ']
    exact Nat.pow_le_pow_right (by decide) (by omega)
  have hdvd : spacing (p * wholeUnits / d) ∣ q * wholeUnits := by
    refine hshort.spacing_dvd ?_
    have hq' : q ≠ 0 := by omega
    have hle : (p / d).log2 ≤ q.log2 :=
      (Nat.le_log2 hq').2 ((Nat.log2_self_le hne).trans (by omega))
    have hlog' : (q * wholeUnits).log2 = q.log2 + wholeExponent := log2_mul_two_pow hq' _
    omega
  have hwide : 2 * (d * wholeUnits) ≤ d * spacing (p * wholeUnits / d) := by
    rw [Nat.mul_left_comm]
    exact Nat.mul_le_mul_left d hstep
  have hdividend : p * wholeUnits = p / d * (d * wholeUnits) + p % d * wholeUnits := by
    rw [← Nat.mul_assoc, ← Nat.add_mul, Nat.div_add_mod']
  have hrest : p % d * wholeUnits < d * wholeUnits :=
    Nat.mul_lt_mul_of_pos_right (Nat.mod_lt p hd) wholeUnits_pos
  have hwhole : q * wholeUnits * d = q * (d * wholeUnits) := by
    rw [Nat.mul_assoc, Nat.mul_comm wholeUnits]
  have hunit := Nat.mul_pos hd wholeUnits_pos
  refine roundedRatio_eq_of_close hd hdvd ?_ ?_
  all_goals
    generalize spacing (p * wholeUnits / d) = step at hwide ⊢
    rw [hwhole, hdividend]
    rcases hq with rfl | ⟨rfl, hpos⟩
  · omega
  · rw [Nat.add_mul]
    omega
  · omega
  · have hmore := Nat.mul_pos hpos wholeUnits_pos
    rw [Nat.add_mul]
    omega

/-- Where the whole number of Euclidean division is a double, a ratio is rounded to something with
the same whole part as before, or with the next one. -/
theorem roundedRatio_div_wholeUnits (hd : 0 < d) (hq : q = p / d ∨ q = p / d + 1 ∧ 0 < p % d)
    (hshort : IsShort (q * wholeUnits)) :
    roundedRatio (p * wholeUnits) d / wholeUnits = p / d ∨
      roundedRatio (p * wholeUnits) d / wholeUnits = p / d + 1 := by
  by_cases h : p / d < 2 ^ 53
  · obtain ⟨hbelow, habove⟩ := roundedRatio_between hd h
    have hle := (Nat.le_div_iff_mul_le wholeUnits_pos).2 hbelow
    have hge := Nat.div_le_of_le_mul ((Nat.mul_comm ..).trans_ge habove)
    omega
  · rw [roundedRatio_eq_of_whole hd (Nat.not_lt.1 h) hq hshort,
      Nat.mul_div_cancel _ wholeUnits_pos]
    omega

end Whole

/-! Quotients with signs -/

theorem tdiv_eq_sign_mul (m n : Int) :
    m.tdiv n = m.sign * n.sign * (m.natAbs / n.natAbs : Nat) := by
  obtain ⟨p, rfl | rfl⟩ := m.eq_nat_or_neg <;> obtain ⟨d, rfl | rfl⟩ := n.eq_nat_or_neg
  all_goals
    rcases Nat.eq_zero_or_pos p with rfl | hp
    · simp
    rcases Nat.eq_zero_or_pos d with rfl | hd
    · simp
  all_goals
    have hp' : (p : Int).sign = 1 := Int.sign_eq_one_of_pos (by omega)
    have hd' : (d : Int).sign = 1 := Int.sign_eq_one_of_pos (by omega)
    simp [Int.neg_tdiv, Int.tdiv_neg, hp', hd', Int.tdiv_eq_ediv_of_nonneg]

theorem natAbs_nearestRatio (m : Int) {n : Int} (hn : n ≠ 0) :
    (nearestRatio m n).natAbs = roundedRatio (m.natAbs * wholeUnits) n.natAbs := by
  by_cases hm : m = 0
  · subst hm
    simp [nearestRatio, roundedRatio, Decimal.roundHalfEven]
  · rw [nearestRatio, Int.natAbs_mul, Int.natAbs_mul, Int.natAbs_sign_of_ne_zero hm,
      Int.natAbs_sign_of_ne_zero hn, Int.natAbs_natCast, Nat.one_mul]

theorem nearestRatio_tdiv (m n : Int) : (nearestRatio m n).tdiv wholeUnits =
    m.sign * n.sign * (roundedRatio (m.natAbs * wholeUnits) n.natAbs / wholeUnits : Nat) := by
  rw [nearestRatio, ← Int.sign_mul]
  generalize roundedRatio (m.natAbs * wholeUnits) n.natAbs = r
  have hnat : (r : Int).tdiv wholeUnits = (r / wholeUnits : Nat) := rfl
  rcases Int.sign_trichotomy (m * n) with h | h | h
  · rw [h, Int.one_mul, Int.one_mul, hnat]
  · rw [h, Int.zero_mul, Int.zero_mul, Int.zero_tdiv]
  · rw [h, Int.neg_mul, Int.neg_mul, Int.one_mul, Int.one_mul, Int.neg_tdiv, hnat]

/-- The quotient of Euclidean division is the one that is cut off, or the next one away from
zero. -/
theorem natAbs_ediv_cases (m n : Int) :
    (m / n).natAbs = m.natAbs / n.natAbs ∨
      (m / n).natAbs = m.natAbs / n.natAbs + 1 ∧ 0 < m.natAbs % n.natAbs := by
  rw [Int.natAbs_ediv]
  split
  · exact .inl rfl
  · rename_i h
    have hdvd : ¬ n.natAbs ∣ m.natAbs := fun hdvd => h (.inr (.inr (Int.natAbs_dvd_natAbs.1 hdvd)))
    exact .inr ⟨rfl, Nat.pos_of_ne_zero fun hmod => hdvd (Nat.dvd_of_mod_eq_zero hmod)⟩

/-- Where the quotient of Euclidean division is a double, the rounded ratio has the same whole part
as the exact one, or the next one away from zero. -/
theorem nearestRatio_tdiv_cases {m n : Int} (hn : n ≠ 0)
    (hshort : IsShort (m / n * wholeUnits).natAbs) :
    (nearestRatio m n).tdiv wholeUnits = m.tdiv n ∧
        (nearestRatio m n).natAbs < (m.natAbs / n.natAbs + 1) * wholeUnits ∨
      (nearestRatio m n).tdiv wholeUnits = m.tdiv n + m.sign * n.sign ∧
        (m.natAbs / n.natAbs + 1) * wholeUnits ≤ (nearestRatio m n).natAbs := by
  rw [Int.natAbs_mul, Int.natAbs_natCast] at hshort
  rw [nearestRatio_tdiv, natAbs_nearestRatio m hn, tdiv_eq_sign_mul]
  rcases roundedRatio_div_wholeUnits (Int.natAbs_pos.2 hn) (natAbs_ediv_cases m n) hshort with h | h
  · refine .inl ⟨by rw [h], (Nat.div_lt_iff_lt_mul wholeUnits_pos).1 ?_⟩
    omega
  · refine .inr ⟨by rw [h]; push_cast; ring, (Nat.le_div_iff_mul_le wholeUnits_pos).1 ?_⟩
    omega

/-- Only ratios close to the next whole number are rounded to it: those that miss it by a
`2 ^ 53`-th or less. -/
theorem le_of_next_le_roundedRatio {p d : Nat} (hd : 0 < d)
    (h : (p / d + 1) * wholeUnits ≤ roundedRatio (p * wholeUnits) d) :
    (d - p % d) * 2 ^ 53 ≤ p := by
  by_cases hlarge : 2 ^ 53 ≤ p * wholeUnits / d
  · have hmiss : (d - p % d) * wholeUnits + p * wholeUnits ≤ roundedRatio (p * wholeUnits) d * d :=
      calc (d - p % d) * wholeUnits + p * wholeUnits
          = (d - p % d + (p / d * d + p % d)) * wholeUnits := by
            rw [Nat.div_add_mod', Nat.add_mul]
        _ = (p / d + 1) * wholeUnits * d := by
            have hsum : d - p % d + (p / d * d + p % d) = (p / d + 1) * d := by
              have hmod := Nat.mod_lt p hd
              rw [Nat.add_mul]
              omega
            rw [hsum, Nat.mul_right_comm]
        _ ≤ roundedRatio (p * wholeUnits) d * d := Nat.mul_le_mul_right d h
    have hnear := (roundedRatio_near (p * wholeUnits) hd).2
    have hstep : d * spacing (p * wholeUnits / d) * 2 ^ 52 ≤ p * wholeUnits := by
      rw [Nat.mul_assoc]
      exact (Nat.mul_le_mul_left d (spacing_mul_le hlarge)).trans (Nat.mul_div_le _ _)
    have hhalf : (d - p % d) * wholeUnits * 2 ≤ d * spacing (p * wholeUnits / d) := by omega
    refine Nat.le_of_mul_le_mul_right ?_ wholeUnits_pos
    calc (d - p % d) * 2 ^ 53 * wholeUnits = (d - p % d) * wholeUnits * 2 * 2 ^ 52 := by ring
      _ ≤ d * spacing (p * wholeUnits / d) * 2 ^ 52 := Nat.mul_le_mul_right _ hhalf
      _ ≤ p * wholeUnits := hstep
  · -- the ratio is far below one
    have hsmall := Nat.not_le.1 hlarge
    have hone : 2 ^ 54 ≤ wholeUnits := by
      have hwhole := wholeExponent_eq
      exact Nat.pow_le_pow_right (by decide) (by omega)
    have hnext : wholeUnits ≤ (p / d + 1) * wholeUnits := Nat.le_mul_of_pos_left _ (Nat.succ_pos _)
    rw [roundedRatio_of_lt hsmall] at h
    rcases Decimal.roundHalfEven_cases (p * wholeUnits) d with heq | heq <;> omega

/-! Quotient and remainder -/

/-- The two divisions differ where the remainder that is cut off is negative. -/
theorem ediv_emod_cases (m : Int) {n : Int} (hn : n ≠ 0) :
    0 ≤ m.tmod n ∧ m % n = m.tmod n ∧ m / n = m.tdiv n ∨
      m.tmod n < 0 ∧ m % n = m.tmod n + n.natAbs ∧ m / n = m.tdiv n - n.sign := by
  have hmod := @Int.tmod_eq_emod m n
  have hdiv := @Int.tdiv_eq_ediv m n
  have hnonneg := Int.emod_nonneg m hn
  have hlt := Int.emod_lt m hn
  by_cases h : 0 ≤ m ∨ n ∣ m
  · rw [if_pos h] at hmod hdiv
    omega
  · rw [if_neg h] at hmod hdiv
    omega

/-- There is room for one more above every double. -/
theorem natAbs_add_wholeUnits_lt {x : Float} {k : Int} (hx : units? x = some k) :
    k.natAbs + wholeUnits < overflow := by
  obtain ⟨negative, m, e, _, hm, _, hhigh, rfl⟩ := exists_decode hx
  have hlast := lastExponent_eq
  have hwhole := wholeExponent_eq
  have hmantissa : m ≤ 2 ^ 53 - 1 := by omega
  have hpower : 2 ^ (e + 1074).toNat ≤ 2 * 2 ^ lastExponent := by
    rw [← Nat.pow_succ']
    exact Nat.pow_le_pow_right (by decide) (by omega)
  have hunits : unitsOf m e ≤ (2 ^ 53 - 1) * (2 * 2 ^ lastExponent) :=
    Nat.mul_le_mul hmantissa hpower
  rw [Nat.sub_mul, Nat.one_mul] at hunits
  have hone : wholeUnits < 2 ^ lastExponent := Nat.pow_lt_pow_right (by decide) (by omega)
  rw [natAbs_signed]
  unfold overflow limit
  generalize 2 ^ lastExponent = step at hunits hone ⊢
  omega

/-! Rounded remainders -/

theorem nearest_of_nonneg {k : Int} (h : 0 ≤ k) : nearest k = rounded k.natAbs := by
  rw [nearest, if_neg (Int.not_lt.2 h)]

/-- A number is rounded to a double above it that is less than half a step away, or half a step if
the last place comes out even. -/
theorem rounded_eq_iff {k r : Nat} (hr : IsShort r) (h : k < r) : rounded k = r ↔
    2 * (r - k) < spacing k ∨ 2 * (r - k) = spacing k ∧ 2 * spacing k ∣ r := by
  have hlog : k.log2 ≤ r.log2 := by
    by_cases hzero : k = 0
    · simp [hzero]
    · exact (Nat.le_log2 (by omega)).2 ((Nat.log2_self_le hzero).trans h.le)
  obtain ⟨q, rfl⟩ := hr.spacing_dvd hlog
  have hpos := spacing_pos k
  rw [rounded, Nat.mul_comm (spacing k) q, Nat.mul_left_inj hpos.ne',
    Decimal.roundHalfEven_eq_iff (Nat.mul_comm (spacing k) q ▸ h), Nat.mul_dvd_mul_iff_right hpos]

section Operations

variable {a b : Float} {m n w : Int}

/-- The remainder is the exact one, rounded. -/
theorem units?_remainder (ha : units? a = some m) (hb : units? b = some n) (hn : n ≠ 0) :
    units? (Division.double.remainder a b) = some (nearest (m % n)) := by
  have hfmod := units?_fmod ha hb hn
  have hremainder : Division.double.remainder a b =
      bif decide (fmod a b < 0) then fmod a b + b.abs else fmod a b := rfl
  rw [hremainder]
  rcases ediv_emod_cases m hn with ⟨hnonneg, hmod, _⟩ | ⟨hneg, hmod, _⟩
  · rw [decide_eq_false (mt (neg_iff_of_units? hfmod).1 (Int.not_lt.2 hnonneg)), cond_false, hfmod,
      hmod, nearest_of_isShort (isShort_of_units? hfmod).1]
  · have hsum := isRounded_add hfmod (units?_abs hb)
    rw [decide_eq_true ((neg_iff_of_units? hfmod).2 hneg), cond_true, hmod]
    refine hsum.finite ?_
    have hnonneg := Int.emod_nonneg m hn
    have hlt := (isShort_of_units? hb).2
    omega

/-- The quotient is made from the whole part of the rounded ratio. -/
theorem units?_quotient (ha : units? a = some m) (hb : units? b = some n) (hn : n ≠ 0)
    (hw : units? (a / b) = some w) : units? (Division.double.quotient a b) =
      some (nearest ((w.tdiv wholeUnits + (m / n - m.tdiv n)) * wholeUnits)) := by
  have hfmod := units?_fmod ha hb hn
  have htrunc := units?_trunc hw
  have hroom := natAbs_add_wholeUnits_lt htrunc
  have hquotient : Division.double.quotient a b = bif decide (fmod a b < 0) then
      bif decide (0 < b) then trunc (a / b) - 1 else trunc (a / b) + 1 else trunc (a / b) := rfl
  rw [hquotient]
  rcases ediv_emod_cases m hn with ⟨hnonneg, _, hdiv⟩ | ⟨hneg, _, hdiv⟩
  · rw [decide_eq_false (mt (neg_iff_of_units? hfmod).1 (Int.not_lt.2 hnonneg)), cond_false, htrunc,
      hdiv, Int.sub_self, Int.add_zero, nearest_of_isShort (isShort_of_units? htrunc).1]
  · rw [decide_eq_true ((neg_iff_of_units? hfmod).2 hneg), cond_true, hdiv]
    by_cases hpos : 0 < n
    · have hdown := isRounded_sub htrunc units?_one
      have hunits : (w.tdiv wholeUnits + (m.tdiv n - n.sign - m.tdiv n)) * wholeUnits =
          w.tdiv wholeUnits * wholeUnits - wholeUnits := by
        rw [Int.sign_eq_one_of_pos hpos]
        ring
      rw [decide_eq_true ((pos_iff_of_units? hb).2 hpos), cond_true, hunits]
      exact hdown.finite (by omega)
    · have hup := isRounded_add htrunc units?_one
      have hunits : (w.tdiv wholeUnits + (m.tdiv n - n.sign - m.tdiv n)) * wholeUnits =
          w.tdiv wholeUnits * wholeUnits + wholeUnits := by
        rw [Int.sign_eq_neg_one_of_neg (by omega)]
        ring
      rw [decide_eq_false (mt (pos_iff_of_units? hb).1 hpos), cond_false, hunits]
      exact hup.finite (by omega)

/-- The ratio that is computed is the exact one, rounded. -/
theorem eq_nearestRatio (ha : units? a = some m) (hb : units? b = some n) (hn : n ≠ 0)
    (hw : units? (a / b) = some w) : w = nearestRatio m n := by
  obtain ⟨hfinite, hinfinite⟩ := units?_div ha hb hn
  by_cases hlt : roundedRatio (m.natAbs * wholeUnits) n.natAbs < limit
  · exact Option.some.inj (hw.symm.trans (hfinite hlt))
  · rw [units?_of_isInf (hinfinite (Nat.not_lt.1 hlt))] at hw
    cases hw

/-- The quotient where the rounded ratio has the whole part of the exact one, -/
theorem units?_quotient_of_lt (ha : units? a = some m) (hb : units? b = some n) (hn : n ≠ 0)
    (hw : units? (a / b) = some w) (hshort : IsShort (m / n * wholeUnits).natAbs)
    (hlt : w.natAbs < (m.natAbs / n.natAbs + 1) * wholeUnits) :
    units? (Division.double.quotient a b) = some (m / n * wholeUnits) := by
  obtain rfl := eq_nearestRatio ha hb hn hw
  rcases nearestRatio_tdiv_cases hn hshort with ⟨hwhole, _⟩ | ⟨_, hle⟩
  · rw [units?_quotient ha hb hn hw, hwhole, add_sub_cancel, nearest_of_isShort hshort]
  · exact absurd hlt (Nat.not_lt.2 hle)

/-- and where it has the next one. -/
theorem units?_quotient_of_le (ha : units? a = some m) (hb : units? b = some n) (hn : n ≠ 0)
    (hw : units? (a / b) = some w) (hshort : IsShort (m / n * wholeUnits).natAbs)
    (hle : (m.natAbs / n.natAbs + 1) * wholeUnits ≤ w.natAbs) :
    units? (Division.double.quotient a b) =
      some (nearest ((m / n + m.sign * n.sign) * wholeUnits)) := by
  obtain rfl := eq_nearestRatio ha hb hn hw
  rcases nearestRatio_tdiv_cases hn hshort with ⟨_, hlt⟩ | ⟨hwhole, _⟩
  · exact absurd hle (Nat.not_le.2 hlt)
  · have hnext : m.tdiv n + m.sign * n.sign + (m / n - m.tdiv n) = m / n + m.sign * n.sign := by
      ring
    rw [units?_quotient ha hb hn hw, hwhole, hnext]

/-- Division of two doubles against Euclidean division, which is that of the integers: the doubles
have `m` and `n` units, and their ratio has `w`. -/
structure IsRoundedEuclidean (a b : Float) (m n w : Int) : Prop where
  ratio : w = nearestRatio m n
  /-- The remainder is the exact one, rounded. -/
  remainder : units? (Division.double.remainder a b) = some (nearest (m % n))
  nonneg : 0 ≤ nearest (m % n)
  le : nearest (m % n) ≤ n.natAbs
  /-- It reaches the divisor where the exact one lies less than half a step below it, or half a step
  if the last place comes out even. -/
  eq_iff : nearest (m % n) = n.natAbs ↔ 2 * (n.natAbs - m % n) < spacing (m % n).natAbs ∨
    2 * (n.natAbs - m % n) = spacing (m % n).natAbs ∧ 2 * spacing (m % n).natAbs ∣ n.natAbs
  exact_of_nonneg : 0 ≤ m → nearest (m % n) = m % n
  /-- The quotient is the exact one, as long as the ratio is not rounded up to a whole number; -/
  quotient : ∀ d, units? d = some (m / n * wholeUnits) →
    w.natAbs < (m.natAbs / n.natAbs + 1) * wholeUnits →
    units? (Division.double.quotient a b) = some (m / n * wholeUnits)
  /-- then it goes one step too far from zero. -/
  quotient_next : ∀ d, units? d = some (m / n * wholeUnits) →
    (m.natAbs / n.natAbs + 1) * wholeUnits ≤ w.natAbs →
    units? (Division.double.quotient a b) =
      some (nearest ((m / n + m.sign * n.sign) * wholeUnits))
  /-- Only a ratio close to a whole number is rounded up to it. -/
  close : (m.natAbs / n.natAbs + 1) * wholeUnits ≤ w.natAbs →
    (n.natAbs - m.natAbs % n.natAbs) * 2 ^ 53 ≤ m.natAbs
  /-- Multiples of a common step in 53 bits are divided exactly. -/
  grid : ∀ (i j : Int) (k : Nat), m = i * 2 ^ k → n = j * 2 ^ k → i.natAbs < 2 ^ 53 →
    j.natAbs ≤ 2 ^ 53 →
    units? (Division.double.quotient a b) = some (m / n * wholeUnits) ∧
      units? (Division.double.remainder a b) = some (m % n)

section Grid

variable {i j : Int} {k : Nat}

/-- On a common step the remainder has few bits, -/
theorem isShort_emod_of_grid (hj : j ≠ 0) (hj' : j.natAbs ≤ 2 ^ 53) :
    IsShort (i * 2 ^ k % (j * 2 ^ k)).natAbs := by
  have hnonneg := Int.emod_nonneg i hj
  have hlt := Int.emod_lt i hj
  have hmod : i * 2 ^ k % (j * 2 ^ k) = i % j * 2 ^ k := by
    rw [Int.mul_comm i, Int.mul_comm j, Int.mul_emod_mul_of_pos _ _ (by positivity), Int.mul_comm]
  refine ⟨(i % j).natAbs, k, by omega, ?_⟩
  rw [hmod, Int.natAbs_mul, Int.natAbs_pow]
  rfl

/-- and so has the quotient; -/
theorem isShort_ediv_of_grid (hi : i.natAbs < 2 ^ 53) :
    IsShort (i * 2 ^ k / (j * 2 ^ k) * wholeUnits).natAbs := by
  have hdiv : i * 2 ^ k / (j * 2 ^ k) = i / j := Int.mul_ediv_mul_of_pos_left _ _ (by positivity)
  rw [hdiv, Int.natAbs_mul, Int.natAbs_natCast]
  exact isShort_mul_wholeUnits ((Int.natAbs_ediv_le_natAbs i j).trans hi.le)

/-- the ratio is not rounded up to a whole number. -/
theorem natAbs_nearestRatio_lt_of_grid (hj : j ≠ 0) (hi : i.natAbs < 2 ^ 53) :
    (nearestRatio (i * 2 ^ k) (j * 2 ^ k)).natAbs <
      ((i * 2 ^ k).natAbs / (j * 2 ^ k).natAbs + 1) * wholeUnits := by
  have hpower := Nat.two_pow_pos k
  have hstep : ((2 : Int) ^ k).natAbs = 2 ^ k := by
    rw [Int.natAbs_pow]
    rfl
  rw [natAbs_nearestRatio _ (mul_ne_zero hj (by positivity)), Int.natAbs_mul, Int.natAbs_mul, hstep,
    Nat.mul_right_comm, roundedRatio_mul _ _ hpower, Nat.mul_div_mul_right _ _ hpower]
  by_contra hle
  have hmod := Nat.mod_lt i.natAbs (Int.natAbs_pos.2 hj)
  have hmiss := le_of_next_le_roundedRatio (Int.natAbs_pos.2 hj) (Nat.not_lt.1 hle)
  omega

end Grid

/-- What quotient and remainder of finite doubles are, unless the ratio overflows. -/
theorem quotient_remainder_double (ha : units? a = some m) (hb : units? b = some n) (hn : n ≠ 0)
    (hw : units? (a / b) = some w) : IsRoundedEuclidean a b m n w := by
  have hratio := eq_nearestRatio ha hb hn hw
  have hremainder := units?_remainder ha hb hn
  have hnonneg := Int.emod_nonneg m hn
  have hlt := Int.emod_lt m hn
  have hdivisor := (isShort_of_units? hb).1
  have hrounded := nearest_of_nonneg hnonneg
  have hclose := @nearest_nearest (m % n) n.natAbs hdivisor
  refine
    { ratio := hratio
      remainder := hremainder
      nonneg := by omega
      le := by omega
      eq_iff := ?_
      exact_of_nonneg := fun hm => ?_
      quotient := fun d hd => units?_quotient_of_lt ha hb hn hw (isShort_of_units? hd).1
      quotient_next := fun d hd => units?_quotient_of_le ha hb hn hw (isShort_of_units? hd).1
      close := fun hle => ?_
      grid := ?_ }
  · have hiff := rounded_eq_iff hdivisor (k := (m % n).natAbs) (by omega)
    omega
  · rcases ediv_emod_cases m hn with ⟨_, hmod, _⟩ | ⟨hneg, _⟩
    · rw [hmod, nearest_of_isShort (isShort_of_units? (units?_fmod ha hb hn)).1]
    · exact absurd (Int.tmod_nonneg n hm) (Int.not_le.2 hneg)
  · rw [hratio, natAbs_nearestRatio m hn] at hle
    exact le_of_next_le_roundedRatio (Int.natAbs_pos.2 hn) hle
  · rintro i j k rfl rfl hi hj
    have hj' : j ≠ 0 := left_ne_zero_of_mul hn
    refine ⟨units?_quotient_of_lt ha hb hn hw (isShort_ediv_of_grid hi) ?_, ?_⟩
    · rw [hratio]
      exact natAbs_nearestRatio_lt_of_grid hj' hi
    · rw [hremainder, nearest_of_isShort (isShort_emod_of_grid hj' hj)]

end Operations

theorem quotient_remainder_double_negative :
    units? (Division.double.quotient (-7.5) 2) = some (-4 * (wholeUnits : Int)) ∧
      units? (Division.double.remainder (-7.5) 2) = some (2 ^ 1073) := by
  have h : IsRoundedEuclidean (-7.5) 2 (-15 * 2 ^ 1073) (4 * 2 ^ 1073) (-15 * 2 ^ 1072) :=
    quotient_remainder_double (by decide +kernel) (by decide +kernel) (by decide +kernel)
      (by decide +kernel)
  obtain ⟨hquotient, hremainder⟩ := h.grid (-15) 4 1073 rfl rfl (by decide) (by decide)
  have hdiv : (-15 * 2 ^ 1073 : Int) / (4 * 2 ^ 1073) = -4 := by decide +kernel
  have hmod : (-15 * 2 ^ 1073 : Int) % (4 * 2 ^ 1073) = 2 ^ 1073 := by decide +kernel
  rw [hdiv] at hquotient
  rw [hmod] at hremainder
  exact ⟨hquotient, hremainder⟩

/-- A tenth goes nine times into one, and the ratio is rounded to ten; a small negative dividend
leaves the divisor. -/
theorem quotient_remainder_double_not_euclidean :
    (∃ m n w : Int, units? 1 = some m ∧ units? 0.1 = some n ∧ 0 < n ∧ units? (1 / 0.1) = some w ∧
      m / n = 9 ∧ units? 9 = some (9 * (wholeUnits : Int)) ∧
      units? (Division.double.quotient 1 0.1) = some (10 * (wholeUnits : Int)) ∧
      units? (Division.double.remainder 1 0.1) = some (m - n * 9)) ∧
    ∃ m n w : Int, units? (-1e-20) = some m ∧ units? 1 = some n ∧ 0 < n ∧
      units? (-1e-20 / 1) = some w ∧ units? (Division.double.remainder (-1e-20) 1) = some n := by
  constructor
  · refine ⟨2 ^ 1074, 3602879701896397 * 2 ^ 1019, 10 * 2 ^ 1074, ?_⟩
    decide +kernel
  · refine ⟨-6646139978924579 * 2 ^ 955, 2 ^ 1074, -6646139978924579 * 2 ^ 955, ?_⟩
    decide +kernel

end Double

end FlightCurve

import FlightCurve.Proofs.Unsigned

/-!
The fewest digits. A positive double is written as a decimal that is nearer to it than to any other
double. Such a decimal is found, because the last of the grids that are searched is finer than half
the last place of the double.

The main fact is that the text of a double without a sign determines it: read as a decimal, the text
denotes a number that is rounded to this double, and to no other one.
-/

namespace FlightCurve

namespace Decimal

open Double Float.Model Float.Model.UnpackedFloat

/-! Exact quotients -/

theorem tenPow_pos (k : Nat) : 0 < tenPow k := Nat.pow_pos (by decide)

theorem scaled_den_pos (m : Nat) (e k : Int) : 0 < (scaled m e k).den := by
  have hshift : 0 < 1 <<< (-e).toNat := by
    rw [Nat.shiftLeft_eq, Nat.one_mul]
    exact Nat.two_pow_pos _
  exact Nat.mul_pos hshift (tenPow_pos _)

/-- A power with an integer exponent is the quotient of two with natural ones. -/
theorem zpow_eq_div (b : ℚ) (hb : b ≠ 0) (e : Int) : b ^ e = b ^ e.toNat / b ^ (-e).toNat := by
  rw [← zpow_natCast, ← zpow_natCast, ← zpow_sub₀ hb]
  congr 1
  omega

theorem scaled_eq (m : Nat) (e k : Int) :
    ((scaled m e k).num : ℚ) / (scaled m e k).den = m * 2 ^ e / 10 ^ k := by
  rw [zpow_eq_div 2 two_ne_zero e, zpow_eq_div 10 (by norm_num) k]
  have htwo : (2 : ℚ) ^ (-e).toNat ≠ 0 := by positivity
  have hten : (10 : ℚ) ^ k.toNat ≠ 0 := by positivity
  have hten' : (10 : ℚ) ^ (-k).toNat ≠ 0 := by positivity
  simp only [scaled, tenPow, Nat.shiftLeft_eq, Nat.pow_eq, Nat.one_mul]
  push_cast
  field_simp

theorem num_le_iff (m d : Nat) (e k : Int) :
    (scaled m e k).num ≤ d * (scaled m e k).den ↔ (m * 2 ^ e : ℚ) ≤ d * 10 ^ k := by
  have hden : (0 : ℚ) < (scaled m e k).den := by exact_mod_cast scaled_den_pos m e k
  have hten : (0 : ℚ) < 10 ^ k := by positivity
  rw [← div_le_iff₀ hten, ← scaled_eq, div_le_iff₀ hden]
  norm_cast

theorem le_num_iff (m d : Nat) (e k : Int) :
    d * (scaled m e k).den ≤ (scaled m e k).num ↔ (d * 10 ^ k : ℚ) ≤ m * 2 ^ e := by
  have hden : (0 : ℚ) < (scaled m e k).den := by exact_mod_cast scaled_den_pos m e k
  have hten : (0 : ℚ) < 10 ^ k := by positivity
  rw [← le_div_iff₀ hten, ← scaled_eq, le_div_iff₀ hden]
  norm_cast

/-! Rounding intervals -/

/-- Where the numbers begin that are nearest to `m · 2 ^ e` among the doubles. -/
def lowerEnd (m : Nat) (e : Int) : ℚ := (roundingInterval m e).low * 2 ^ (e - 2)

/-- Where they end. -/
def upperEnd (m : Nat) (e : Int) : ℚ := (roundingInterval m e).high * 2 ^ (e - 2)

/-- Among the doubles `m · 2 ^ e` is the nearest to the number, the even one of two. -/
structure RoundsTo (q : ℚ) (m : Nat) (e : Int) : Prop where
  lower : lowerEnd m e ≤ q
  upper : q ≤ upperEnd m e
  inside : m % 2 = 1 → lowerEnd m e < q ∧ q < upperEnd m e

theorem contains_iff {m d : Nat} {e k : Int} :
    (roundingInterval m e).contains d k = true ↔ RoundsTo (d * 10 ^ k) m e := by
  have hlow := num_le_iff (roundingInterval m e).low d (e - 2) k
  have hhigh := le_num_iff (roundingInterval m e).high d (e - 2) k
  have hlow' := le_num_iff (roundingInterval m e).low d (e - 2) k
  have hhigh' := num_le_iff (roundingInterval m e).high d (e - 2) k
  change (if decide (m % 2 = 0) = true then _ else _) = true ↔ _
  by_cases heven : m % 2 = 0
  · rw [if_pos (decide_eq_true heven), Bool.and_eq_true, decide_eq_true_eq, decide_eq_true_eq]
    refine (and_congr hlow hhigh).trans ⟨fun h => ⟨h.1, h.2, fun hodd => ?_⟩, fun h => ⟨h.1, h.2⟩⟩
    omega
  · rw [if_neg (by simpa using heven), Bool.and_eq_true, decide_eq_true_eq, decide_eq_true_eq,
      ← not_le, ← not_le]
    refine (and_congr (not_congr hlow') (not_congr hhigh')).trans ?_
    rw [not_le, not_le]
    exact ⟨fun h => ⟨h.1.le, h.2.le, fun _ => h⟩, fun h => h.inside (by omega)⟩

/-- Below a power of two the doubles are twice as dense. -/
theorem low_cases (m : Nat) (e : Int) :
    ((roundingInterval m e).low = 4 * m - 1 ∧ m = leadingBit) ∨
      ((roundingInterval m e).low = 4 * m - 2 ∧ ¬(m = leadingBit ∧ -1074 < e)) := by
  by_cases h : m = leadingBit ∧ -1074 < e
  · exact .inl ⟨if_pos h, h.1⟩
  · exact .inr ⟨if_neg h, h⟩

/-- Intervals of different doubles are apart, but for an end that one of them does not have. -/
theorem upperEnd_le {m m' : Nat} {e e' : Int} (h : Canonical m e) (h' : Canonical m' e')
    (hlt : e < e' ∨ e = e' ∧ m < m') : upperEnd m e ≤ lowerEnd m' e' ∧
      (upperEnd m e = lowerEnd m' e' → m % 2 = 1 ∨ m' % 2 = 1) := by
  have hunit : (0 : ℚ) < 2 ^ (e - 2) := by positivity
  have hle := h.le
  have hlt53 := h.lt
  -- both ends in units of the smaller exponent
  obtain ⟨p, hp, hends⟩ : ∃ p : Nat, lowerEnd m' e' = p * 2 ^ (e - 2) ∧
      (roundingInterval m e).high ≤ p ∧
      ((roundingInterval m e).high = p → m % 2 = 1 ∨ m' % 2 = 1) := by
    rcases hlt with hlt | ⟨rfl, hlt⟩
    · obtain ⟨j, rfl⟩ : ∃ j : Nat, e' = e + (j + 1) := ⟨(e' - e - 1).toNat, by omega⟩
      have hfull : 2 ^ 52 ≤ m' := h'.full.resolve_left (by omega)
      refine ⟨(roundingInterval m' (e + (j + 1))).low * 2 ^ (j + 1), ?_, ?_⟩
      · have hexponent : e + ((j : Int) + 1) - 2 = e - 2 + ((j + 1 : Nat) : Int) := by
          push_cast
          ring
        rw [lowerEnd, hexponent, zpow_add₀ two_ne_zero, zpow_natCast]
        push_cast
        ring
      · have hpow : 2 ≤ 2 ^ (j + 1) := by
          rw [pow_succ]
          have := Nat.two_pow_pos j
          omega
        have hlow : 2 ^ 54 - 1 ≤ (roundingInterval m' (e + (j + 1))).low := by
          have hleast : 2 ^ 52 = leadingBit := rfl
          rcases low_cases m' (e + (j + 1)) with ⟨hlow, -⟩ | ⟨hlow, hfirst⟩
          · omega
          · have : m' ≠ leadingBit := fun heq => hfirst ⟨heq, by omega⟩
            omega
        have hmul := Nat.mul_le_mul hlow hpow
        change 4 * m + 2 ≤ _ ∧ (4 * m + 2 = _ → _)
        omega
    · have hlow : (roundingInterval m' e).low = 4 * m' - 2 := by
        refine if_neg fun hfirst => ?_
        have hfull := h.full.resolve_left (by omega)
        rw [hfirst.1] at hlt
        exact absurd hlt (not_lt.2 hfull)
      refine ⟨(roundingInterval m' e).low, rfl, ?_⟩
      rw [hlow]
      change 4 * m + 2 ≤ 4 * m' - 2 ∧ (4 * m + 2 = 4 * m' - 2 → _)
      omega
  rw [hp, upperEnd]
  refine ⟨mul_le_mul_of_nonneg_right (by exact_mod_cast hends.1) hunit.le, fun heq => ?_⟩
  exact hends.2 (by exact_mod_cast mul_right_cancel₀ hunit.ne' heq)

theorem RoundsTo.unique {q : ℚ} {m m' : Nat} {e e' : Int} (hm : Canonical m e)
    (hm' : Canonical m' e') (h : RoundsTo q m e) (h' : RoundsTo q m' e') : m = m' ∧ e = e' := by
  have hapart : ∀ {m m' : Nat} {e e' : Int}, Canonical m e → Canonical m' e' → RoundsTo q m e →
      RoundsTo q m' e' → ¬(e < e' ∨ e = e' ∧ m < m') := by
    intro m m' e e' hm hm' h h' hlt
    obtain ⟨hle, hodd⟩ := upperEnd_le hm hm' hlt
    have hmeet := le_antisymm hle (h'.lower.trans h.upper)
    rcases hodd hmeet with hodd | hodd
    · exact absurd (h.inside hodd).2 (not_lt.2 (hle.trans h'.lower))
    · exact absurd (h'.inside hodd).1 (not_lt.2 (h.upper.trans hle))
  have hne := hapart hm hm' h h'
  have hne' := hapart hm' hm h' h
  omega

/-! Grids -/

/-- The point that is nearest, or the one on the other side, if the interval has it. -/
theorem gridPoint?_eq (m : Nat) (e k : Int) : ∃ far, gridPoint? m e k =
    let near := roundHalfEven (scaled m e k).num (scaled m e k).den
    if 0 < near ∧ (roundingInterval m e).contains near k then some near
    else if 0 < far ∧ (roundingInterval m e).contains far k then some far
    else none :=
  ⟨_, rfl⟩

theorem gridPoint?_eq_some {m d : Nat} {e k : Int} (h : gridPoint? m e k = some d) :
    0 < d ∧ RoundsTo (d * 10 ^ k) m e := by
  obtain ⟨far, heq⟩ := gridPoint?_eq m e k
  rw [heq] at h
  dsimp only at h
  split at h
  · rename_i hnear
    cases h
    exact ⟨hnear.1, contains_iff.1 hnear.2⟩
  · split at h
    · rename_i hfar
      cases h
      exact ⟨hfar.1, contains_iff.1 hfar.2⟩
    · cases h

/-- What is nearest on a grid lies half a step away at most. -/
theorem nearest_bounds (m : Nat) (e k : Int) :
    let near : ℚ := roundHalfEven (scaled m e k).num (scaled m e k).den
    m * 2 ^ e ≤ near * 10 ^ k + 10 ^ k / 2 ∧ near * 10 ^ k ≤ m * 2 ^ e + 10 ^ k / 2 := by
  obtain ⟨hbelow, habove⟩ := @roundHalfEven_near (scaled m e k).num _ (scaled_den_pos m e k)
  have hten : (0 : ℚ) < 10 ^ k := by positivity
  have hden : (0 : ℚ) < (scaled m e k).den := by exact_mod_cast scaled_den_pos m e k
  have hvalue := scaled_eq m e k
  rw [div_eq_div_iff hden.ne' hten.ne'] at hvalue
  generalize roundHalfEven (scaled m e k).num (scaled m e k).den = near at hbelow habove
  have hbelow' : 2 * ((scaled m e k).num : ℚ) ≤ 2 * (near * (scaled m e k).den) +
      (scaled m e k).den := by exact_mod_cast hbelow
  have habove' : 2 * (near * ((scaled m e k).den : ℚ)) ≤ 2 * ((scaled m e k).num : ℚ) +
      (scaled m e k).den := by exact_mod_cast habove
  have hbelow := mul_le_mul_of_nonneg_right hbelow' hten.le
  have habove := mul_le_mul_of_nonneg_right habove' hten.le
  constructor
  · refine le_of_mul_le_mul_right ?_ hden
    linarith
  · refine le_of_mul_le_mul_right ?_ hden
    linarith

/-- The interval reaches a quarter of the last place to either side, without its ends. -/
theorem roundsTo_of_inside {q : ℚ} {m : Nat} {e : Int} (hm : 0 < m)
    (hlow : (4 * m - 1) * 2 ^ (e - 2) < q) (hhigh : q < (4 * m + 1) * 2 ^ (e - 2)) :
    RoundsTo q m e := by
  have hunit : (0 : ℚ) < 2 ^ (e - 2) := by positivity
  have hlower : lowerEnd m e ≤ (4 * m - 1) * 2 ^ (e - 2) := by
    refine mul_le_mul_of_nonneg_right ?_ hunit.le
    have : (roundingInterval m e).low + 1 ≤ 4 * m := by
      rcases low_cases m e with ⟨h, -⟩ | ⟨h, -⟩ <;> omega
    have : ((roundingInterval m e).low : ℚ) + 1 ≤ 4 * m := by exact_mod_cast this
    linarith
  have hupper : (4 * m + 1) * 2 ^ (e - 2) ≤ upperEnd m e := by
    refine mul_le_mul_of_nonneg_right ?_ hunit.le
    change (4 * m + 1 : ℚ) ≤ ((4 * m + 2 : Nat) : ℚ)
    push_cast
    linarith
  have hlow' := lt_of_le_of_lt hlower hlow
  have hhigh' := lt_of_lt_of_le hhigh hupper
  exact ⟨hlow'.le, hhigh'.le, fun _ => ⟨hlow', hhigh'⟩⟩

/-- A grid that is finer than half the last place meets the interval. -/
theorem exists_gridPoint {m : Nat} {e k : Int} (hm : 0 < m) (hk : (10 : ℚ) ^ k < 2 ^ (e - 1)) :
    ∃ d, gridPoint? m e k = some d := by
  have hhalf : (2 : ℚ) ^ (e - 1) = 2 * 2 ^ (e - 2) := by
    rw [← zpow_one_add₀ two_ne_zero]
    congr 1
    ring
  have hquarter : (2 : ℚ) ^ e = 4 * 2 ^ (e - 2) := by
    rw [show (4 : ℚ) = 2 ^ (2 : Int) by norm_num, ← zpow_add₀ two_ne_zero]
    congr 1
    ring
  have hten : (0 : ℚ) < 10 ^ k := by positivity
  have hunit : (0 : ℚ) < 2 ^ (e - 2) := by positivity
  have hm' : (1 : ℚ) ≤ m := by exact_mod_cast hm
  obtain ⟨hbelow, habove⟩ := nearest_bounds m e k
  obtain ⟨far, heq⟩ := gridPoint?_eq m e k
  rw [heq]
  generalize roundHalfEven (scaled m e k).num (scaled m e k).den = near at hbelow habove ⊢
  rw [hhalf] at hk
  rw [hquarter] at hbelow habove
  have hlow : (4 * m - 1) * 2 ^ (e - 2) < (near * 10 ^ k : ℚ) := by linarith
  have hhigh : (near * 10 ^ k : ℚ) < (4 * m + 1) * 2 ^ (e - 2) := by linarith
  have hpos : (0 : ℚ) < near * 10 ^ k := by
    refine lt_trans (mul_pos ?_ hunit) hlow
    linarith
  refine ⟨near, if_pos ⟨?_, contains_iff.2 (roundsTo_of_inside hm hlow hhigh)⟩⟩
  exact_mod_cast pos_of_mul_pos_left hpos hten.le

/-- The search ends at a grid that meets the interval, if one of those searched does. -/
theorem gridPoint?_coarsest {m : Nat} {e : Int} {grids : Nat} {k : Int} {j d : Nat} (hj : j < grids)
    (h : gridPoint? m e (k - j) = some d) :
    gridPoint? m e (coarsest m e grids k).2 = some (coarsest m e grids k).1 := by
  induction grids generalizing k j with
  | zero => omega
  | succ grids ih =>
      rw [coarsest]
      split
      · rename_i d' hd'
        exact hd'
      · rename_i hnone
        cases j with
        | zero =>
            rw [Nat.cast_zero, sub_zero, hnone] at h
            cases h
        | succ j =>
            refine ih (Nat.lt_of_succ_lt_succ hj) ?_
            rwa [sub_sub, add_comm, ← Nat.cast_one, ← Nat.cast_add]

/-! Bounds on powers -/

/-- What bounds a power of two by one of ten bounds their inverses. -/
theorem tenPow_neg_le {a b : Nat} (h : 2 ^ a ≤ 10 ^ b) (n : Nat) :
    (10 : ℚ) ^ (-(b * n : Int)) ≤ 2 ^ (-(a * n : Int)) := by
  have hpow : (2 : ℚ) ^ (a * n) ≤ 10 ^ (b * n) := by
    rw [pow_mul, pow_mul]
    exact pow_le_pow_left₀ (by positivity) (by exact_mod_cast h) n
  rw [zpow_neg, zpow_neg]
  exact inv_anti₀ (by positivity) (by exact_mod_cast hpow)

/-- A power of ten is below a power of two if `301 / 1000` or `302 / 1000` times a number, less 18,
bounds its exponent, and the number, less 54, is at most the other exponent. -/
theorem tenPow_lt_twoPow {k j s : Int} (hlow : -5000 < s) (hhigh : s < 1250)
    (hk : 1000 * k ≤ (if s < 0 then 301 * s else 302 * s) - 18000) (hj : s - 54 ≤ j) :
    (10 : ℚ) ^ k < 2 ^ j := by
  have hbase : (10 : ℚ) ^ (if s < 0 then 301 * s else 302 * s) ≤
      2 ^ (if s < 0 then 999 * s else 1004 * s) := by
    split
    · have hpow := tenPow_neg_le (show 2 ^ 999 ≤ 10 ^ 301 by decide +kernel) (-s).toNat
      rwa [Int.toNat_of_nonneg (by omega), mul_neg, mul_neg, neg_neg, neg_neg] at hpow
    · have hpow : (10 : ℚ) ^ 302 ≤ 2 ^ 1004 := by
        exact_mod_cast (show 10 ^ 302 ≤ 2 ^ 1004 by decide +kernel)
      rw [zpow_mul, zpow_mul]
      exact zpow_le_zpow_left₀ (by omega) (by positivity) hpow
  have hshift := tenPow_neg_le (show 2 ^ 59 ≤ 10 ^ 18 by decide +kernel) 1000
  have hpow : ((10 : ℚ) ^ k) ^ 1000 < (2 ^ j) ^ 1000 := by
    rw [← zpow_natCast, ← zpow_natCast, ← zpow_mul, ← zpow_mul]
    calc (10 : ℚ) ^ (k * (1000 : Nat))
        ≤ 10 ^ ((if s < 0 then 301 * s else 302 * s) + -(18 * (1000 : Nat) : Int)) :=
          zpow_le_zpow_right₀ (by norm_num) (by omega)
      _ ≤ 2 ^ ((if s < 0 then 999 * s else 1004 * s) + -(59 * (1000 : Nat) : Int)) := by
          rw [zpow_add₀ (by norm_num), zpow_add₀ (by norm_num)]
          exact mul_le_mul hbase hshift (by positivity) (by positivity)
      _ < 2 ^ (j * (1000 : Nat)) := by
          refine zpow_lt_zpow_right₀ (by norm_num) ?_
          split <;> omega
  exact lt_of_pow_lt_pow_left₀ 1000 (by positivity) hpow

theorem tenPow_decimalBound_lt {m : Nat} {e : Int} (hm : m < 2 ^ 53) (hle : -1074 ≤ e)
    (hhigh : e ≤ 971) : (10 : ℚ) ^ (decimalBound m e - 19) < 2 ^ (e - 1) := by
  have hlog := log2_le_of_lt hm
  refine tenPow_lt_twoPow (s := m.log2 + 1 + e) (by omega) (by omega) ?_ (by omega)
  unfold decimalBound
  dsimp only
  split <;> omega

/-- The fewest digits, with their power of ten, are a number that is rounded to the double. -/
theorem fewestDigits_roundsTo {m : Nat} {e : Int} (hm : 0 < m) (h : Canonical m e)
    (hhigh : e ≤ 971) : 0 < (fewestDigits m e).1 ∧
      RoundsTo ((fewestDigits m e).1 * 10 ^ (fewestDigits m e).2) m e := by
  obtain ⟨d, hd⟩ := exists_gridPoint hm (tenPow_decimalBound_lt h.lt h.le hhigh)
  have hj : (19 : Nat) < 20 := by decide
  exact gridPoint?_eq_some (gridPoint?_coarsest hj hd)

/-! Digits -/

theorem isDigit_of_mem_digits (n : Nat) : ∀ c ∈ digits n, c.isDigit = true := by
  intro c hc
  rw [digits, Nat.toString_eq_ofList_toDigits, String.toList_ofList] at hc
  exact Nat.isDigit_of_mem_toDigits (by decide) (by decide) hc

theorem ofDigits_digits (n : Nat) : ofDigits (digits n) = n := by
  rw [digits, Nat.toString_eq_ofList_toDigits, String.toList_ofList]
  exact Nat.ofDigitChars_ten_toDigits

theorem ofDigits_append (cs ds : List Char) :
    ofDigits (cs ++ ds) = ofDigits cs * 10 ^ ds.length + ofDigits ds := by
  change Nat.ofDigitChars 10 (cs ++ ds) 0 = _
  rw [Nat.ofDigitChars_append, Nat.ofDigitChars_eq_ofDigitChars_zero, Nat.mul_comm]
  rfl

theorem ofDigits_zeros (n : Nat) : ofDigits (zeros n) = 0 :=
  Nat.ofDigitChars_replicate_zero

theorem length_zeros (n : Nat) : (zeros n).length = n := List.length_replicate

theorem isDigit_of_mem_zeros (n : Nat) : ∀ c ∈ zeros n, c.isDigit = true := by
  intro c hc
  rw [List.eq_of_mem_replicate hc]
  rfl

/-- Trailing zeros are those of the number. -/
theorem exists_append_zeros (cs : List Char) : ∃ n, cs = dropTrailingZeros cs ++ zeros n := by
  refine ⟨(cs.reverse.takeWhile (· = '0')).length, ?_⟩
  have hzeros : cs.reverse.takeWhile (· = '0') = zeros (cs.reverse.takeWhile (· = '0')).length := by
    refine List.eq_replicate_iff.2 ⟨rfl, fun c hc => ?_⟩
    simpa using List.mem_takeWhile_imp hc
  have hsplit : cs = (cs.reverse.takeWhile (· = '0') ++ cs.reverse.dropWhile (· = '0')).reverse := by
    rw [List.takeWhile_append_dropWhile, List.reverse_reverse]
  rw [List.reverse_append] at hsplit
  conv_lhs => rw [hsplit]
  rw [dropTrailingZeros]
  refine congrArg _ ?_
  conv_lhs => rw [hzeros]
  exact List.reverse_replicate

/-! Reading -/

/-- A run of characters of a kind ends where the kind does. -/
theorem takeWhile_dropWhile_append {p : Char → Bool} {run rest : List Char}
    (hrun : ∀ c ∈ run, p c = true) (hrest : ∀ c ∈ rest.head?, p c = false) :
    (run ++ rest).takeWhile p = run ∧ (run ++ rest).dropWhile p = rest := by
  have hnone : rest.takeWhile p = [] ∧ rest.dropWhile p = rest := by
    cases rest with
    | nil => exact ⟨rfl, rfl⟩
    | cons c rest => simp [hrest c rfl]
  rw [List.takeWhile_append_of_pos hrun, List.dropWhile_append_of_pos hrun, hnone.1, hnone.2,
    List.append_nil]
  exact ⟨rfl, rfl⟩

/-- The digits of a literal as one number, and the exponent of the power of ten that goes with
them. -/
def literalParts (cs : List Char) : Nat × Int :=
  let whole := cs.takeWhile Char.isDigit
  let (fraction, rest) :=
    match cs.dropWhile Char.isDigit with
    | '.' :: after => (after.takeWhile Char.isDigit, after.dropWhile Char.isDigit)
    | after => ([], after)
  (ofDigits (whole ++ fraction), readExponent (rest.drop 1) - fraction.length)

/-- The number that a literal denotes, before it is rounded. -/
def literalValue (cs : List Char) : ℚ := (literalParts cs).1 * 10 ^ (literalParts cs).2

theorem literalParts_point {whole fraction rest : List Char}
    (hwhole : ∀ c ∈ whole, c.isDigit = true) (hfraction : ∀ c ∈ fraction, c.isDigit = true)
    (hrest : ∀ c ∈ rest.head?, c.isDigit = false) :
    literalParts (whole ++ '.' :: (fraction ++ rest)) =
      (ofDigits (whole ++ fraction), readExponent (rest.drop 1) - fraction.length) := by
  have hpoint : ∀ c ∈ ('.' :: (fraction ++ rest)).head?, c.isDigit = false := by
    intro c hc
    cases hc
    rfl
  obtain ⟨htake, hdrop⟩ := takeWhile_dropWhile_append hwhole hpoint
  obtain ⟨htake', hdrop'⟩ := takeWhile_dropWhile_append hfraction hrest
  unfold literalParts
  simp only [htake, hdrop, htake', hdrop']

theorem literalParts_exponent {whole : List Char} (hwhole : ∀ c ∈ whole, c.isDigit = true)
    (rest : List Char) :
    literalParts (whole ++ 'e' :: rest) = (ofDigits whole, readExponent rest) := by
  have hmark : ∀ c ∈ ('e' :: rest).head?, c.isDigit = false := by
    intro c hc
    cases hc
    rfl
  obtain ⟨htake, hdrop⟩ := takeWhile_dropWhile_append hwhole hmark
  unfold literalParts
  simp only [htake, hdrop]
  simp

theorem readExponent_exponentText (e : Int) : readExponent (exponentText e) = e := by
  have hdigits : ofDigits (zeros (2 - (digits e.natAbs).length) ++ digits e.natAbs) = e.natAbs := by
    rw [ofDigits_append, ofDigits_zeros, Nat.zero_mul, Nat.zero_add, ofDigits_digits]
  unfold exponentText
  dsimp only
  split
  · rw [readExponent, hdigits]
    omega
  · rw [readExponent, hdigits]
    omega

/-- The value of a literal with a point and no exponent. -/
theorem literalValue_point {whole fraction : List Char} (hwhole : ∀ c ∈ whole, c.isDigit = true)
    (hfraction : ∀ c ∈ fraction, c.isDigit = true) :
    literalValue (whole ++ '.' :: fraction) =
      ofDigits (whole ++ fraction) * 10 ^ (-(fraction.length : Int)) := by
  have hend : ∀ c ∈ ([] : List Char).head?, c.isDigit = false := by simp
  have hparts := literalParts_point hwhole hfraction hend
  rw [List.append_nil] at hparts
  rw [literalValue, hparts]
  exact congrArg (fun e : Int => (_ : ℚ) * 10 ^ e) (zero_sub _)

section Value

variable {cs : List Char} (hcs : ∀ c ∈ cs, c.isDigit = true)

include hcs

theorem literalValue_positional (point : Int) :
    literalValue (positional cs point) = ofDigits cs * 10 ^ (point - cs.length) := by
  unfold positional
  split
  · rename_i hpoint
    have hzero : ∀ c ∈ ['0'], c.isDigit = true := List.forall_mem_singleton.2 rfl
    have hfraction : ∀ c ∈ zeros (-point).toNat ++ cs, c.isDigit = true :=
      List.forall_mem_append.2 ⟨isDigit_of_mem_zeros _, hcs⟩
    have hvalue := literalValue_point hzero hfraction
    rw [List.singleton_append] at hvalue
    have hlead : ofDigits ['0'] = 0 := rfl
    rw [hvalue, ofDigits_append, ofDigits_append, ofDigits_zeros, hlead, List.length_append,
      length_zeros, Nat.zero_mul, Nat.zero_mul, Nat.zero_add, Nat.zero_add]
    congr 2
    omega
  · split
    · rename_i hpoint hlength
      have hwhole : ∀ c ∈ cs ++ zeros (point.toNat - cs.length), c.isDigit = true :=
        List.forall_mem_append.2 ⟨hcs, isDigit_of_mem_zeros _⟩
      have hzero : ∀ c ∈ ['0'], c.isDigit = true := List.forall_mem_singleton.2 rfl
      have hlast : ofDigits ['0'] = 0 := rfl
      rw [literalValue_point hwhole hzero, ofDigits_append, ofDigits_append, ofDigits_zeros, hlast,
        length_zeros, show point - (cs.length : Int) = (point.toNat - cs.length : Nat) by omega]
      push_cast
      simp [zpow_neg, mul_assoc]
    · rename_i hpoint hlength
      rw [literalValue_point (fun c hc => hcs c (List.mem_of_mem_take hc))
        (fun c hc => hcs c (List.mem_of_mem_drop hc)), List.take_append_drop, List.length_drop]
      congr 2
      omega

theorem literalValue_scientific (hne : cs ≠ []) (e : Int) :
    literalValue (scientific cs e) = ofDigits cs * 10 ^ (e + 1 - cs.length) := by
  obtain ⟨c, ds, rfl⟩ := List.exists_cons_of_ne_nil hne
  rw [List.forall_mem_cons] at hcs
  have hfirst : ∀ d ∈ [c], d.isDigit = true := List.forall_mem_singleton.2 hcs.1
  have hmark : ∀ d ∈ ('e' :: exponentText e).head?, d.isDigit = false := by
    intro d hd
    cases hd
    rfl
  unfold scientific
  split
  · have hparts := literalParts_point hfirst hcs.2 hmark
    have htext : (c :: ds).take 1 ++ '.' :: (c :: ds).drop 1 ++ 'e' :: exponentText e =
        [c] ++ '.' :: (ds ++ 'e' :: exponentText e) := by simp
    rw [List.drop_succ_cons, List.drop_zero, readExponent_exponentText] at hparts
    rw [htext, literalValue, hparts]
    congr 2
    rw [List.length_cons]
    omega
  · rename_i hlength
    obtain rfl : ds = [] := List.length_eq_zero_iff.1 (by rw [List.length_cons] at hlength; omega)
    have hparts := literalParts_exponent hfirst (exponentText e)
    rw [readExponent_exponentText] at hparts
    rw [List.take_succ_cons, List.take_zero, List.append_nil, literalValue, hparts]
    congr 2
    rw [List.length_singleton]
    omega

end Value

/-! Texts -/

/-- The digits of a number without its trailing zeros. -/
theorem dropTrailingZeros_digits {d : Nat} (hd : 0 < d) :
    ∃ n, ofDigits (dropTrailingZeros (digits d)) * 10 ^ n = d ∧
      (digits d).length = (dropTrailingZeros (digits d)).length + n ∧
      (∀ c ∈ dropTrailingZeros (digits d), c.isDigit = true) ∧
      dropTrailingZeros (digits d) ≠ [] := by
  obtain ⟨n, hn⟩ := exists_append_zeros (digits d)
  have hdigits := isDigit_of_mem_digits d
  have hvalue := ofDigits_digits d
  generalize dropTrailingZeros (digits d) = cs at hn ⊢
  rw [hn] at hdigits hvalue ⊢
  rw [ofDigits_append, ofDigits_zeros, length_zeros, Nat.add_zero] at hvalue
  refine ⟨n, hvalue, by rw [List.length_append, length_zeros], ?_, ?_⟩
  · exact (List.forall_mem_append.1 hdigits).1
  · rintro rfl
    rw [show ofDigits [] = 0 from rfl, Nat.zero_mul] at hvalue
    omega

/-- The text in the fewest digits denotes the number that they make with their power of ten. -/
theorem literalValue_shortestChars {m : Nat} {e : Int} (hm : m ≠ 0)
    (hd : 0 < (fewestDigits m e).1) :
    literalValue (shortestChars m e) = (fewestDigits m e).1 * 10 ^ (fewestDigits m e).2 := by
  rw [shortestChars, if_neg hm]
  generalize fewestDigits m e = p at hd ⊢
  obtain ⟨d, k⟩ := p
  obtain ⟨n, hvalue, hlength, hdigits, hne⟩ := dropTrailingZeros_digits hd
  have hten : (10 : ℚ) ≠ 0 := by norm_num
  have hshift : (ofDigits (dropTrailingZeros (digits d)) : ℚ) * 10 ^ ((n : Int) + k) =
      d * 10 ^ k := by
    rw [zpow_add₀ hten, zpow_natCast, ← mul_assoc]
    congr 1
    exact_mod_cast hvalue
  simp only
  rw [← hshift]
  split
  · rw [literalValue_positional hdigits, hlength]
    congr 2
    push_cast
    ring
  · rw [literalValue_scientific hdigits hne, hlength]
    congr 2
    push_cast
    ring

/-- Digits with points, marks of exponents and signs behind the first of them. -/
def IsNumeral (cs : List Char) : Prop :=
  ∃ c ds, cs = c :: ds ∧ c.isDigit = true ∧ ∀ d ∈ ds, d.isDigit = true ∨ d ∈ ['.', 'e', '+', '-']

theorem isNumeral_append {ds rest : List Char} (hds : ∀ c ∈ ds, c.isDigit = true) (hne : ds ≠ [])
    (hrest : ∀ c ∈ rest, c.isDigit = true ∨ c ∈ ['.', 'e', '+', '-']) : IsNumeral (ds ++ rest) := by
  obtain ⟨c, ds, rfl⟩ := List.exists_cons_of_ne_nil hne
  rw [List.forall_mem_cons] at hds
  exact ⟨c, ds ++ rest, rfl, hds.1,
    List.forall_mem_append.2 ⟨fun d hd => .inl (hds.2 d hd), hrest⟩⟩

theorem isNumeral_positional {cs : List Char} (hcs : ∀ c ∈ cs, c.isDigit = true) (hne : cs ≠ [])
    (point : Int) : IsNumeral (positional cs point) := by
  have hpoint : '.' ∈ ['.', 'e', '+', '-'] := List.mem_cons_self
  unfold positional
  split
  · have hzero : ∀ c ∈ ['0'], c.isDigit = true := List.forall_mem_singleton.2 rfl
    refine isNumeral_append hzero (List.cons_ne_nil _ _) (List.forall_mem_cons.2 ⟨.inr hpoint, ?_⟩)
    exact List.forall_mem_append.2
      ⟨fun c hc => .inl (isDigit_of_mem_zeros _ c hc), fun c hc => .inl (hcs c hc)⟩
  · split
    · refine isNumeral_append (List.forall_mem_append.2 ⟨hcs, isDigit_of_mem_zeros _⟩) ?_ ?_
      · simp [hne]
      · exact List.forall_mem_cons.2 ⟨.inr hpoint, List.forall_mem_singleton.2 (.inl rfl)⟩
    · refine isNumeral_append (fun c hc => hcs c (List.mem_of_mem_take hc)) ?_ ?_
      · have htake : 0 < point.toNat := by omega
        simp only [ne_eq, List.take_eq_nil_iff, not_or]
        exact ⟨by omega, hne⟩
      · exact List.forall_mem_cons.2
          ⟨.inr hpoint, fun c hc => .inl (hcs c (List.mem_of_mem_drop hc))⟩

theorem isNumeral_scientific {cs : List Char} (hcs : ∀ c ∈ cs, c.isDigit = true) (hne : cs ≠ [])
    (e : Int) : IsNumeral (scientific cs e) := by
  have hexponent : ∀ c ∈ 'e' :: exponentText e, c.isDigit = true ∨ c ∈ ['.', 'e', '+', '-'] := by
    unfold exponentText
    refine List.forall_mem_cons.2 ⟨.inr (by simp), List.forall_mem_cons.2 ⟨.inr ?_, ?_⟩⟩
    · split <;> simp
    · exact List.forall_mem_append.2 ⟨fun c hc => .inl (isDigit_of_mem_zeros _ c hc),
        fun c hc => .inl (isDigit_of_mem_digits _ c hc)⟩
  unfold scientific
  rw [List.append_assoc]
  refine isNumeral_append (fun c hc => hcs c (List.mem_of_mem_take hc)) (by simp [hne])
    (List.forall_mem_append.2 ⟨?_, hexponent⟩)
  split
  · exact List.forall_mem_cons.2
      ⟨.inr List.mem_cons_self, fun c hc => .inl (hcs c (List.mem_of_mem_drop hc))⟩
  · exact List.forall_mem_nil _

theorem isNumeral_shortestChars {m : Nat} {e : Int} (hm : m ≠ 0) (hd : 0 < (fewestDigits m e).1) :
    IsNumeral (shortestChars m e) := by
  rw [shortestChars, if_neg hm]
  generalize fewestDigits m e = p at hd ⊢
  obtain ⟨d, k⟩ := p
  obtain ⟨_, _, _, hdigits, hne⟩ := dropTrailingZeros_digits hd
  simp only
  split
  · exact isNumeral_positional hdigits hne _
  · exact isNumeral_scientific hdigits hne _

/-- A text says which number without a sign is meant: it is the word for infinity, or a numeral
with a value that is rounded to this number. -/
inductive Denotes : List Char → UnpackedFloat → Prop
  | infinity : Denotes ['i', 'n', 'f'] (.infinity .positive)
  | zero {cs : List Char} (numeral : IsNumeral cs) (value : literalValue cs = 0) :
      Denotes cs (.zero .positive)
  | finite {cs : List Char} {m : Nat} {e : Int} (hm : 0 < m) (numeral : IsNumeral cs)
      (canonical : Canonical m e) (pos : 0 < literalValue cs)
      (rounds : RoundsTo (literalValue cs) m e) : Denotes cs (.finite .positive m e hm)

theorem not_isNumeral_inf : ¬IsNumeral ['i', 'n', 'f'] := by
  rintro ⟨c, ds, htext, hdigit, -⟩
  cases htext
  cases hdigit

/-- A text says which number is meant only once. -/
theorem Denotes.unique {cs : List Char} {u v : UnpackedFloat} (hu : Denotes cs u)
    (hv : Denotes cs v) : u = v := by
  cases hu with
  | infinity =>
      cases hv with
      | infinity => rfl
      | zero numeral _ => exact absurd numeral not_isNumeral_inf
      | finite _ numeral _ _ _ => exact absurd numeral not_isNumeral_inf
  | zero numeral value =>
      cases hv with
      | infinity => exact absurd numeral not_isNumeral_inf
      | zero _ _ => rfl
      | finite _ _ _ pos _ => exact absurd value pos.ne'
  | finite hm numeral canonical pos rounds =>
      cases hv with
      | infinity => exact absurd numeral not_isNumeral_inf
      | zero _ value => exact absurd value pos.ne'
      | finite hm' _ canonical' _ rounds' =>
          obtain ⟨rfl, rfl⟩ := rounds.unique canonical canonical' rounds'
          rfl

theorem denotes_shortestChars {m : Nat} {e : Int} (hm : 0 < m) (h : Canonical m e)
    (hhigh : e ≤ 971) : Denotes (shortestChars m e) (.finite .positive m e hm) := by
  obtain ⟨hd, hrounds⟩ := fewestDigits_roundsTo hm h hhigh
  have hvalue := literalValue_shortestChars hm.ne' hd
  have hpos : (0 : ℚ) < (fewestDigits m e).1 := by exact_mod_cast hd
  refine .finite hm (isNumeral_shortestChars hm.ne' hd) h ?_ ?_
  · rw [hvalue]
    positivity
  · rwa [hvalue]

theorem literalValue_zero : literalValue ['0', '.', '0'] = 0 := by
  have hparts : literalParts ['0', '.', '0'] = (0, -1) := by decide
  rw [literalValue, hparts]
  simp

/-- What is written of a double without a sign denotes this double. -/
theorem denotes_chars {x : Float} (h : IsUnsigned x) : Denotes (chars x) x.toModel.unpack := by
  have hstorable := storable_unpack x.toModel
  have hpositive := isUnsigned_iff.1 h
  rw [chars, decode_eq]
  generalize x.toModel.unpack = u at hstorable hpositive ⊢
  rcases hpositive.cases with rfl | rfl | ⟨m, e, hm, rfl⟩
  · exact .infinity
  · exact .zero ⟨'0', ['.', '0'], rfl, rfl, by simp⟩ literalValue_zero
  · exact denotes_shortestChars hm hstorable.1 hstorable.2

/-- A double without a sign is written as a numeral, or as the word for infinity. -/
theorem chars_form {x : Float} (h : IsUnsigned x) :
    chars x = ['i', 'n', 'f'] ∨ IsNumeral (chars x) := by
  have hdenotes := denotes_chars h
  generalize chars x = cs, x.toModel.unpack = u at hdenotes ⊢
  cases hdenotes with
  | infinity => exact .inl rfl
  | zero numeral _ => exact .inr numeral
  | finite _ numeral _ _ _ => exact .inr numeral

/-- The text of a double without a sign determines it. -/
theorem eq_of_chars {x y : Float} (hx : IsUnsigned x) (hy : IsUnsigned y)
    (h : chars x = chars y) : x = y := by
  have hdenotes := denotes_chars hx
  rw [h] at hdenotes
  exact eq_of_unpack (hdenotes.unique (denotes_chars hy))

end Decimal

end FlightCurve

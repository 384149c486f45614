import FlightCurve.Proofs.Quotients

/-!
Integer parts and remainders of doubles. A finite double is decoded, its mantissa is divided, and
what comes out fits into 53 bits again; so both are exact.
-/

namespace FlightCurve

namespace Double

open Float.Model Float.Model.UnpackedFloat

/-! Signs -/

/-- A whole number with the sign of a double. -/
def signed (negative : Bool) (n : Nat) : Int := if negative then -(n : Int) else n

theorem signed_zero (negative : Bool) : signed negative 0 = 0 := by
  cases negative <;> rfl

theorem natAbs_signed (negative : Bool) (n : Nat) : (signed negative n).natAbs = n := by
  cases negative
  · exact Int.natAbs_natCast n
  · exact Int.natAbs_neg n

theorem signed_mul (negative : Bool) (n d : Nat) :
    signed negative n * d = signed negative (n * d) := by
  cases negative <;> simp [signed]

theorem signed_tdiv (negative : Bool) (n d : Nat) :
    (signed negative n).tdiv d = signed negative (n / d) := by
  cases negative
  · exact (Int.natCast_div n d).symm
  · exact Int.neg_tdiv n d

theorem signed_tmod (negative negative' : Bool) (n d : Nat) :
    (signed negative n).tmod (signed negative' d) = signed negative (n % d) := by
  have hnat : (n : Int).tmod d = (n % d : Nat) := rfl
  cases negative <;> cases negative' <;>
    simp only [signed, Bool.false_eq_true, if_true, if_false, Int.neg_tmod, Int.tmod_neg, hnat]

theorem units?_finite (negative : Bool) (m : Nat) (e : Int) :
    (Dyadic.finite negative m e).units? = some (signed negative (unitsOf m e)) := rfl

/-! Encoding -/

theorem unpack_ofBits (v : UInt64) : (Float.ofBits v).toModel.unpack =
    ofFields (signOf v.toBitVec) (fieldOf v.toBitVec) (fractionOf v.toBitVec) := by
  have hstorable : Storable (UnpackedFloat.unpack Format.binary64 v.toBitVec) := by
    rw [unpack_eq]
    exact storable_ofFields _ (fieldOf_lt _) (fractionOf_lt _)
  rw [← unpack_eq]
  exact unpack_pack hstorable

/-- The fields of a pattern that is put together from them. -/
theorem fields_of_toNat {b : Bits} {sign field fraction : Nat}
    (hsign : sign = 0 ∨ sign = signBit) (hfield : field < 2048) (hfraction : fraction < leadingBit)
    (h : b.toNat = sign + field * leadingBit + fraction) :
    fieldOf b = field ∧ fractionOf b = fraction ∧
      (signOf b == .negative) = decide (sign = signBit) := by
  rw [fieldOf_eq, fractionOf_eq, signOf_beq_negative, h, decide_eq_decide]
  simp only [leadingBit, signBit] at *
  omega

/-- The double with these fields. -/
theorem decode_ofBits (negative : Bool) {field fraction : Nat} (hfield : field < 2047)
    (hfraction : fraction < leadingBit) :
    decode (.ofBits (.ofNat ((if negative then signBit else 0) + field * leadingBit + fraction))) =
      if field = 0 then .finite negative fraction (-1074)
      else .finite negative (leadingBit + fraction) (field - 1075) := by
  obtain ⟨sign, hweight, hsign, hnegative⟩ : ∃ sign, (if negative then signBit else 0) = sign ∧
      (sign = 0 ∨ sign = signBit) ∧ decide (sign = signBit) = negative := by
    cases negative
    · exact ⟨0, rfl, .inl rfl, rfl⟩
    · exact ⟨signBit, rfl, .inr rfl, rfl⟩
  have hlt : sign + field * leadingBit + fraction < 2 ^ 64 := by
    simp only [leadingBit, signBit] at *
    omega
  have hnat : (UInt64.ofNat (sign + field * leadingBit + fraction)).toBitVec.toNat =
      sign + field * leadingBit + fraction := by
    rw [UInt64.toNat_toBitVec, UInt64.toNat_ofNat', Nat.mod_eq_of_lt hlt]
  obtain ⟨hfield', hfraction', hsign'⟩ := fields_of_toNat hsign (by omega) hfraction hnat
  rw [hnegative] at hsign'
  rw [hweight, decode_eq, unpack_ofBits, hfield', hfraction', ofFields, if_neg (by omega)]
  by_cases hleast : field = 0
  · rw [if_pos hleast, if_pos hleast]
    split
    · rw [Dyadic.ofUnpacked, hsign']
    · rename_i hzero
      rw [Dyadic.ofUnpacked, hsign', Nat.eq_zero_of_not_pos hzero]
  · rw [if_neg hleast, if_neg hleast, Dyadic.ofUnpacked, hsign']
    rfl

/-- A mantissa in the stored form is written into the fields as it is. -/
theorem units?_ofBits (negative : Bool) {m : Nat} {e : Int} (h : Canonical m e) (hhigh : e ≤ 971) :
    units? (.ofBits (.ofNat ((if negative then signBit else 0) +
      (if m < leadingBit then 0 else (e + 1075).toNat) * leadingBit + m % leadingBit))) =
      some (signed negative (unitsOf m e)) := by
  obtain ⟨hlt, hle, hfull⟩ := h
  by_cases hsmall : m < leadingBit
  · have hleast : e = -1074 := hfull.resolve_right (Nat.not_le.2 hsmall)
    rw [if_pos hsmall, Nat.mod_eq_of_lt hsmall, units?, decode_ofBits negative (by decide) hsmall,
      if_pos rfl, units?_finite, hleast]
  · have hrest : m % leadingBit = m - leadingBit := by
      simp only [leadingBit] at *
      omega
    have hfraction : m - leadingBit < leadingBit := by
      simp only [leadingBit] at *
      omega
    have hwhole : leadingBit + (m - leadingBit) = m := by omega
    have hexponent : (((e + 1075).toNat : Nat) : Int) - 1075 = e := by omega
    rw [if_neg hsmall, hrest, units?, decode_ofBits negative (by omega) hfraction,
      if_neg (by omega), hexponent, hwhole, units?_finite]

/-- A mantissa that fits into 53 bits, shifted to the exponent at which it is stored. -/
theorem canonical_shifted {m : Nat} {e : Int} (hpos : m ≠ 0) (hm : m < 2 ^ 53) :
    Canonical (m * 2 ^ (e - storedExponent m e).toNat) (storedExponent m e) := by
  have hlog := log2_le_of_lt hm
  generalize hk : (e - storedExponent m e).toNat = k
  rw [storedExponent] at hk ⊢
  refine ⟨?_, le_max_right _ _, ?_⟩
  · calc m * 2 ^ k < 2 ^ (m.log2 + 1) * 2 ^ k :=
          Nat.mul_lt_mul_of_pos_right Nat.lt_log2_self (Nat.two_pow_pos k)
      _ = 2 ^ (m.log2 + 1 + k) := (Nat.pow_add ..).symm
      _ ≤ 2 ^ 53 := Nat.pow_le_pow_right (by decide) (by omega)
  · by_cases hfull : 52 ≤ m.log2 + k
    · right
      calc 2 ^ 52 ≤ 2 ^ (m.log2 + k) := Nat.pow_le_pow_right (by decide) hfull
        _ = 2 ^ m.log2 * 2 ^ k := Nat.pow_add ..
        _ ≤ m * 2 ^ k := Nat.mul_le_mul_right _ (Nat.log2_self_le hpos)
    · left
      omega

/-- A mantissa that fits into 53 bits is encoded as it is. -/
theorem units?_encode (negative : Bool) {m : Nat} {e : Int} (hm : m < 2 ^ 53) (hlow : -1074 ≤ e)
    (hhigh : e ≤ 971) : units? (encode negative m e) = some (signed negative (unitsOf m e)) := by
  by_cases hzero : m = 0
  · subst hzero
    have hencode : encode negative 0 e = .ofBits (.ofNat ((if negative then signBit else 0) +
        (if 0 < leadingBit then 0 else ((-1074 : Int) + 1075).toNat) * leadingBit +
          0 % leadingBit)) := by
      simp only [encode, Nat.zero_shiftLeft, Nat.zero_shiftRight]
      rfl
    have hleast : Canonical 0 (-1074) := ⟨by decide, by decide, .inl rfl⟩
    rw [hencode, units?_ofBits negative hleast (by decide), unitsOf, unitsOf, Nat.zero_mul,
      Nat.zero_mul]
  · have hlog := log2_le_of_lt hm
    have hcanonical := @canonical_shifted m e hzero hm
    have hle : storedExponent m e ≤ e := by
      rw [storedExponent]
      omega
    have hshift : (m <<< (e - storedExponent m e).toNat) >>> (storedExponent m e - e).toNat =
        m * 2 ^ (e - storedExponent m e).toNat := by
      have hnone : (storedExponent m e - e).toNat = 0 := by omega
      rw [hnone, Nat.shiftRight_zero, Nat.shiftLeft_eq]
    have hunits : unitsOf (m * 2 ^ (e - storedExponent m e).toNat) (storedExponent m e) =
        unitsOf m e := by
      rw [← Nat.shiftLeft_eq]
      exact unitsOf_shiftLeft m hcanonical.le hle
    rw [encode]
    simp only [hshift]
    rw [units?_ofBits negative hcanonical (hle.trans hhigh), hunits]

/-! Decoding -/

/-- What a finite double is decoded to. -/
theorem exists_decode {x : Float} {n : Int} (hx : units? x = some n) :
    ∃ negative m e, decode x = .finite negative m e ∧ m < 2 ^ 53 ∧ -1074 ≤ e ∧ e ≤ 971 ∧
      n = signed negative (unitsOf m e) := by
  have hstorable := storable_unpack x.toModel
  rw [units?_eq] at hx
  rw [decode_eq]
  rcases zero_or_finite hx with ⟨s, hu, rfl⟩ | ⟨s, m, e, hm, hu, rfl⟩
  · rw [hu]
    refine ⟨_, _, _, rfl, by decide, by decide, by decide, ?_⟩
    rw [unitsOf, Nat.zero_mul, signed_zero]
  · rw [hu] at hstorable ⊢
    refine ⟨_, _, _, rfl, hstorable.1.lt, hstorable.1.le, hstorable.2, ?_⟩
    cases s <;> rfl

/-! Integer parts -/

/-- The integer part of a double is cut off exactly. -/
theorem units?_trunc {x : Float} {n : Int} (hx : units? x = some n) :
    units? (trunc x) = some (n.tdiv wholeUnits * wholeUnits) := by
  obtain ⟨negative, m, e, hdecode, hm, hlow, hhigh, rfl⟩ := exists_decode hx
  have hwhole := wholeExponent_eq
  rw [trunc, hdecode, signed_tdiv, signed_mul]
  by_cases he : 0 ≤ e
  · have hdvd : wholeUnits ∣ unitsOf m e :=
      Dvd.dvd.mul_left (Nat.pow_dvd_pow 2 (by omega)) m
    simp only [if_pos he]
    rw [hx, Nat.div_mul_cancel hdvd]
  · have hcut : m >>> (-e).toNat = unitsOf m e / wholeUnits := by
      have hexponent : wholeExponent = (-e).toNat + (e + 1074).toNat := by omega
      rw [unitsOf, wholeUnits, hexponent, Nat.pow_add,
        Nat.mul_div_mul_right _ _ (Nat.two_pow_pos _), Nat.shiftRight_eq_div_pow]
    have hless : m >>> (-e).toNat < 2 ^ 53 := by
      rw [Nat.shiftRight_eq_div_pow]
      exact (Nat.div_le_self m _).trans_lt hm
    simp only [if_neg he]
    rw [units?_encode negative hless (by decide) (by decide), hcut, unitsOf_zero]

/-! Remainders -/

/-- The remainder with the sign of the dividend is exact. -/
theorem units?_fmod {x y : Float} {m n : Int} (hx : units? x = some m) (hy : units? y = some n)
    (hn : n ≠ 0) : units? (fmod x y) = some (m.tmod n) := by
  obtain ⟨negative, k, e, hdecode, hk, hlow, hhigh, rfl⟩ := exists_decode hx
  obtain ⟨negative', l, f, hdecode', hl, hlow', hhigh', rfl⟩ := exists_decode hy
  have hl' : l ≠ 0 := by
    rintro rfl
    rw [unitsOf, Nat.zero_mul, signed_zero] at hn
    exact hn rfl
  generalize hleast : min e f = least
  have hrest : unitsOf ((k <<< (e - least).toNat) % (l <<< (f - least).toNat)) least =
      unitsOf k e % unitsOf l f := by
    have hlow : -1074 ≤ least := by omega
    have hle : least ≤ e := by omega
    have hle' : least ≤ f := by omega
    rw [← unitsOf_shiftLeft k hlow hle, ← unitsOf_shiftLeft l hlow hle']
    exact (Nat.mul_mod_mul_right _ _ _).symm
  -- one of the two mantissas is not shifted, and the remainder is not above it
  have hless : (k <<< (e - least).toNat) % (l <<< (f - least).toNat) < 2 ^ 53 := by
    by_cases hle : e ≤ f
    · have hzero : (e - least).toNat = 0 := by omega
      rw [hzero, Nat.shiftLeft_zero]
      exact (Nat.mod_le _ _).trans_lt hk
    · have hzero : (f - least).toNat = 0 := by omega
      rw [hzero, Nat.shiftLeft_zero]
      exact (Nat.mod_lt _ (Nat.pos_of_ne_zero hl')).trans hl
  rw [fmod, hdecode, hdecode']
  simp only [if_neg hl', hleast]
  rw [units?_encode negative hless (by omega) (by omega), hrest, signed_tmod]

/-! Absolute values and comparisons with zero -/

theorem storable_abs {u : UnpackedFloat} (h : Storable u) : Storable u.abs := by
  cases u <;> exact h

theorem units?_abs {x : Float} {n : Int} (hx : units? x = some n) :
    units? x.abs = some (n.natAbs : Int) := by
  have hstorable := storable_unpack x.toModel
  rw [units?_eq] at hx
  change units? (.ofModel (.pack x.toModel.unpack.abs)) = _
  rw [units?_pack (storable_abs hstorable)]
  rcases zero_or_finite hx with ⟨s, hu, rfl⟩ | ⟨s, m, e, hm, hu, rfl⟩
  · rw [hu]
    rfl
  · rw [hu, natAbs_apply]
    rfl

/-- The negative finite doubles. -/
theorem neg_iff_of_units? {x : Float} {n : Int} (hx : units? x = some n) : x < 0 ↔ n < 0 := by
  rw [units?_eq] at hx
  rw [lt_iff, unpack_zero]
  rcases zero_or_finite hx with ⟨s, hu, rfl⟩ | ⟨s, m, e, hm, hu, rfl⟩
  · rw [hu]
    simp [UnpackedFloat.lt, UnpackedFloat.compare]
  · rw [hu]
    have hunits := unitsOf_pos hm e
    cases s with
    | negative => simpa [UnpackedFloat.lt, UnpackedFloat.compare, Sign.apply] using hunits
    | positive => simp [UnpackedFloat.lt, UnpackedFloat.compare, Sign.apply]

theorem units?_one : units? 1 = some (wholeUnits : Int) := by
  decide +kernel

end Double

end FlightCurve

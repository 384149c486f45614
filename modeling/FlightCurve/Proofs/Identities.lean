import FlightCurve.Proofs.Doubles

/-!
Doubles that are the same one. A double is packed from what it unpacks to, so it is known from its
units unless these are none: there are two zeros. One is neutral as a factor and as an exponent, and
zero as a summand but for the negative zero.
-/

namespace FlightCurve

namespace Double

open Float.Model Float.Model.UnpackedFloat

/-! Bits from fields -/

theorem toNat_append {k n : Nat} (v : BitVec k) (w : BitVec n) :
    (v ++ w).toNat = v.toNat * 2 ^ n + w.toNat := by
  rw [BitVec.toNat_append, Nat.shiftLeft_eq, Nat.mul_comm, Nat.two_pow_add_eq_or_of_lt w.isLt]

/-- The bits of a double are those of its fields, one after another. -/
theorem packComponents_unpack (b : Bits) :
    packComponents Format.binary64 (signOf b) (unpackExponent b) (unpackMantissa b) = b := by
  have hsign : (signOf b).toBitVec = unpackSign b := Sign.toBitVec_ofBitVec _
  have hfield : (unpackExponent b).toNat = b.toNat / leadingBit % 2048 := fieldOf_eq b
  have hfraction : (unpackMantissa b).toNat = b.toNat % leadingBit := fractionOf_eq b
  have hlt : b.toNat < 2 ^ 64 := b.isLt
  apply BitVec.eq_of_toNat_eq
  rw [packComponents, hsign, toNat_append, toNat_append, toNat_unpackSign, hfield, hfraction]
  unfold signBit leadingBit
  change (b.toNat / 0x8000000000000000 * 2 ^ 11 + b.toNat / 0x10000000000000 % 2048) * 2 ^ 52 +
    b.toNat % 0x10000000000000 = b.toNat
  omega

theorem packComponents_eq {b : Bits} {field : BitVec 11} {fraction : BitVec 52}
    (hfield : unpackExponent b = field) (hfraction : unpackMantissa b = fraction) :
    packComponents Format.binary64 (signOf b) field fraction = b := by
  subst hfield hfraction
  exact packComponents_unpack b

/-- A number without the implicit bit has the least field. -/
theorem pack_subnormal (s : Sign) (fraction : BitVec 52) (hm : 0 < fraction.toNat) :
    UnpackedFloat.pack Format.binary64 (.finite s fraction.toNat (-1074) hm) =
      packComponents Format.binary64 s 0#11 fraction := by
  have hlog : fraction.toNat.log2 < 52 := (Nat.log2_lt (by omega)).2 fraction.isLt
  rw [pack_finite, if_neg (by decide), if_neg hlog.ne, BitVec.ofNat_toNat, BitVec.setWidth_eq]

theorem pack_normal (s : Sign) {field : BitVec 11} (hmax : field.toNat < 2047)
    (fraction : BitVec 52) (hm : 0 < 2 ^ 52 + fraction.toNat) :
    UnpackedFloat.pack Format.binary64
        (.finite s (2 ^ 52 + fraction.toNat) (field.toNat - 1075) hm) =
      packComponents Format.binary64 s field fraction := by
  have hlt := fraction.isLt
  have hlog : (2 ^ 52 + fraction.toNat).log2 = 52 := (Nat.log2_eq_iff (by omega)).2 (by omega)
  have hexponent : ((field.toNat : Int) - 1075 + 1075).toNat = field.toNat := by omega
  have hfraction : BitVec.ofNat 52 (2 ^ 52 + fraction.toNat) = fraction := by
    apply BitVec.eq_of_toNat_eq
    rw [BitVec.toNat_ofNat]
    omega
  rw [pack_finite, hexponent, if_neg (by omega), if_pos hlog, hfraction, BitVec.ofNat_toNat,
    BitVec.setWidth_eq]

/-- Valid bits are packed again from the number that they stand for. -/
theorem pack_unpack_bits {b : Bits} (hb : Format.binary64.Valid b) :
    UnpackedFloat.pack Format.binary64 (UnpackedFloat.unpack Format.binary64 b) = b := by
  rw [unpack_eq, ofFields]
  split
  · rename_i hfield
    have hones : unpackExponent b = -1#_ := BitVec.eq_of_toNat_eq hfield
    split
    · rename_i hzero
      exact packComponents_eq hones (BitVec.eq_of_toNat_eq hzero)
    · rename_i hnone
      exact (hb.eq_packedNaN hones fun h => hnone (congrArg BitVec.toNat h)).symm
  · rename_i hfield
    split
    · rename_i hleast
      have hzeros : unpackExponent b = 0#_ := BitVec.eq_of_toNat_eq hleast
      split
      · exact (pack_subnormal _ _ _).trans (packComponents_eq hzeros rfl)
      · rename_i hzero
        exact packComponents_eq hzeros (BitVec.eq_of_toNat_eq (Nat.eq_zero_of_not_pos hzero))
    · have hmax : fieldOf b < 2047 := by
        have := fieldOf_lt b
        omega
      exact (pack_normal _ hmax _ _).trans (packComponents_unpack b)

theorem pack_unpack (x : Float.Model) : Float.Model.pack x.unpack = x := by
  obtain ⟨bits, hvalid⟩ := x
  have hbits : UInt64.ofBitVec (UnpackedFloat.pack Format.binary64
      (UnpackedFloat.unpack Format.binary64 bits.toBitVec)) = bits := by
    rw [pack_unpack_bits hvalid]
  simp only [Float.Model.pack, Float.Model.unpack, hbits]

theorem ofModel_pack_unpack (x : Float) : Float.ofModel (.pack x.toModel.unpack) = x := by
  rw [pack_unpack]

/-! Doubles from numbers -/

theorem eq_of_unpack {x y : Float} (h : x.toModel.unpack = y.toModel.unpack) : x = y := by
  rw [← ofModel_pack_unpack x, h, ofModel_pack_unpack]

/-- Doubles with as many units are the same, if these are not none. -/
theorem eq_of_units? {x y : Float} {a : Int} (hx : units? x = some a) (hy : units? y = some a)
    (ha : a ≠ 0) : x = y := by
  have hstorable := storable_unpack x.toModel
  have hstorable' := storable_unpack y.toModel
  rw [units?_eq] at hx hy
  apply eq_of_unpack
  rcases zero_or_finite hx with ⟨s, hu, rfl⟩ | ⟨s, m, e, hm, hu, rfl⟩
  · exact absurd rfl ha
  · rcases zero_or_finite hy with ⟨s', hv, hzero⟩ | ⟨s', m', e', hm', hv, happly⟩
    · exact absurd hzero ha
    · rw [hu] at hstorable ⊢
      rw [hv] at hstorable' ⊢
      obtain ⟨rfl, hsame⟩ := apply_inj (unitsOf_pos hm e) happly
      obtain ⟨rfl, rfl⟩ := hstorable.1.unique hstorable'.1 hsame
      rfl

theorem unpack_neg_zero : (-0 : Float).toModel.unpack = .zero .negative := by
  have hstorable : Storable (.zero .negative) := trivial
  have hzero : (-0 : Float) = .ofModel (.pack (.zero .negative)) := by decide +kernel
  rw [hzero]
  exact unpack_pack hstorable

theorem unpack_one :
    (1 : Float).toModel.unpack = .finite .positive (2 ^ 52) (-52) (by decide) := by
  have hstorable : Storable (.finite .positive (2 ^ 52) (-52) (by decide)) :=
    ⟨⟨by decide, by decide, by decide⟩, by decide⟩
  have hone : (1 : Float) = .ofModel (.pack (.finite .positive (2 ^ 52) (-52) (by decide))) := by
    decide +kernel
  rw [hone]
  exact unpack_pack hstorable

/-- There are two zeros. -/
theorem eq_zero_or_neg_zero {x : Float} {s : Sign} (h : x.toModel.unpack = .zero s) :
    x = 0 ∨ x = -0 := by
  cases s with
  | positive => exact .inl (eq_of_unpack (h.trans unpack_zero.symm))
  | negative => exact .inr (eq_of_unpack (h.trans unpack_neg_zero.symm))

/-! One -/

/-- The mantissa of a product with one is shifted back to where it was. -/
theorem roundWithAccuracy_one_mul (s : Sign) {m : Nat} {e : Int} (hm : 0 < m)
    (h : Canonical m e) :
    roundWithAccuracy Format.binary64 s (2 ^ 52 * m) (-52 + e) .exact = .finite s m e hm := by
  obtain ⟨hlt, hle, hfull⟩ := h
  have hlog : (2 ^ 52 * m).log2 = m.log2 + 52 := by
    rw [Nat.mul_comm, log2_mul_two_pow hm.ne']
  have hbits := log2_le_of_lt hlt
  have hlead : 2 ^ 52 ≤ m → 52 ≤ m.log2 := (Nat.le_log2 hm.ne').2
  have hshift : (max (((2 ^ 52 * m).log2 : Int) + (-52 + e) - 52) (-1074) - (-52 + e)).toNat =
      52 := by
    rw [hlog]
    omega
  have hexponent : -52 + e + (52 : Nat) = e := by omega
  have hfirst := shiftToTargetExponent_exact (2 ^ 52 * m) (-52 + e)
  rw [hshift, hexponent] at hfirst
  have hr : ((ExtendedMantissa.mk (2 ^ 52 * m) false false) >>> 52).roundedMantissa = m := by
    rw [roundedMantissa_shiftRight, Decimal.roundHalfEven_of_dvd (Nat.dvd_mul_right _ _),
      Nat.mul_div_cancel_left _ (Nat.two_pow_pos 52)]
  obtain ⟨m', e', hm', hround, hcanonical, hunits⟩ :=
    stores_of_shift hfirst hr hm hlt.le hle hfull (s := s)
  obtain ⟨rfl, rfl⟩ := hcanonical.unique ⟨hlt, hle, hfull⟩ hunits
  exact hround

theorem positive_mul (s : Sign) : Sign.positive * s = s := by
  cases s <;> rfl

protected theorem one_mul (x : Float) : 1 * x = x := by
  have hproduct : UnpackedFloat.mul Format.binary64 (1 : Float).toModel.unpack x.toModel.unpack =
      x.toModel.unpack := by
    have hstorable := storable_unpack x.toModel
    rw [unpack_one]
    cases hx : x.toModel.unpack with
    | notANumber => rfl
    | infinity s => rw [UnpackedFloat.mul, positive_mul]
    | zero s => rw [UnpackedFloat.mul, positive_mul]
    | finite s m e hm =>
        rw [hx] at hstorable
        rw [UnpackedFloat.mul, positive_mul]
        exact roundWithAccuracy_one_mul s hm hstorable.1
  change Float.ofModel (.pack (UnpackedFloat.mul Format.binary64 _ _)) = x
  rw [hproduct, ofModel_pack_unpack]

/-- The exponent one is treated apart. -/
protected theorem pow_one (x : Float) : pow x 1 = x := by
  rw [pow, if_neg (by decide +kernel), if_neg (by decide +kernel), if_neg (by decide +kernel),
    if_pos (by decide +kernel)]

/-! Zeros -/

section Zeros

variable {u : UnpackedFloat} (hu : ∀ s, u ≠ .zero s)
include hu

theorem add_of_ne_zero (s : Sign) : UnpackedFloat.add Format.binary64 (.zero s) u = u := by
  cases u with
  | zero s' => exact absurd rfl (hu s')
  | _ => rfl

theorem neg_ne_zero (s : Sign) : u.neg ≠ .zero s := by
  cases u with
  | zero s' => exact absurd rfl (hu s')
  | _ => nofun

end Zeros

section Summands

variable {x : Float}

theorem unpack_ne_zero (hx : x ≠ 0) (hx' : x ≠ -0) (s : Sign) : x.toModel.unpack ≠ .zero s :=
  fun hs => (eq_zero_or_neg_zero hs).elim hx hx'

protected theorem zero_add (hx : x ≠ -0) : 0 + x = x := by
  by_cases hzero : x = 0
  · rw [hzero]
    decide +kernel
  · change Float.ofModel (.pack (UnpackedFloat.add Format.binary64 (0 : Float).toModel.unpack _)) =
      x
    rw [unpack_zero, add_of_ne_zero (unpack_ne_zero hzero hx), ofModel_pack_unpack]

/-- Once a number other than zero is added, the sign of a zero is lost, -/
theorem zero_add_eq (hx : x ≠ 0) (hx' : x ≠ -0) : 0 + x = -0 + x := by
  have hne := unpack_ne_zero hx hx'
  change Float.ofModel (.pack (UnpackedFloat.add Format.binary64 (0 : Float).toModel.unpack _)) =
    Float.ofModel (.pack (UnpackedFloat.add Format.binary64 (-0 : Float).toModel.unpack _))
  rw [unpack_zero, unpack_neg_zero, add_of_ne_zero hne, add_of_ne_zero hne]

/-- and once it is taken away. -/
theorem zero_sub_eq (hx : x ≠ 0) (hx' : x ≠ -0) : 0 - x = -0 - x := by
  have hne := neg_ne_zero (unpack_ne_zero hx hx')
  change Float.ofModel (.pack (UnpackedFloat.sub Format.binary64 (0 : Float).toModel.unpack _)) =
    Float.ofModel (.pack (UnpackedFloat.sub Format.binary64 (-0 : Float).toModel.unpack _))
  rw [unpack_zero, unpack_neg_zero, sub_eq_add_neg, sub_eq_add_neg, add_of_ne_zero hne,
    add_of_ne_zero hne]

end Summands

end Double

end FlightCurve

import Mathlib
import FlightCurve.Proofs.Rounding

/-!
Doubles as whole numbers of units of `2 ^ -1074`. A double is stored in one form only, so doubles
with as many units are equal, but for the sign of a zero. A sum and a difference of finite doubles
are the exact ones, rounded, or an infinity if that is too large.
-/

namespace FlightCurve

namespace Double

open Float.Model Float.Model.UnpackedFloat

/-! Stored numbers -/

theorem toNat_one_append (v : BitVec 52) : (1#1 ++ v).toNat = 2 ^ 52 + v.toNat := by
  rw [BitVec.toNat_append, BitVec.toNat_ofNat, Nat.shiftLeft_eq, Nat.one_mod, Nat.one_mul,
    ← Nat.two_pow_add_eq_or_of_lt v.isLt 1, Nat.mul_one]

/-- The bits of a double. -/
abbrev Bits : Type := BitVec Format.binary64.numBits

def signOf (b : Bits) : Sign := Sign.ofBitVec (unpackSign b)

def fieldOf (b : Bits) : Nat := (unpackExponent b).toNat

def fractionOf (b : Bits) : Nat := (unpackMantissa b).toNat

theorem fieldOf_lt (b : Bits) : fieldOf b < 2048 := (unpackExponent b).isLt

theorem fractionOf_lt (b : Bits) : fractionOf b < 2 ^ 52 := (unpackMantissa b).isLt

/-- The number that the fields of a double stand for. -/
def ofFields (s : Sign) (field fraction : Nat) : UnpackedFloat :=
  if field = 2047 then if fraction = 0 then .infinity s else .notANumber
  else if field = 0 then
    if h : 0 < fraction then .finite s fraction (-1074) h else .zero s
  else .finite s (2 ^ 52 + fraction) (field - 1075) (by omega)

theorem finite_congr {s : Sign} {m m' : Nat} {e e' : Int} {h : 0 < m} {h' : 0 < m'} (hm : m = m')
    (he : e = e') : UnpackedFloat.finite s m e h = .finite s m' e' h' := by
  subst hm he
  rfl

theorem unpack_eq (b : Bits) :
    UnpackedFloat.unpack Format.binary64 b = ofFields (signOf b) (fieldOf b) (fractionOf b) := by
  have hones : unpackExponent b = -1#_ ↔ fieldOf b = 2047 := by
    rw [← BitVec.toNat_inj]
    rfl
  have hleast : unpackExponent b = 0#_ ↔ fieldOf b = 0 := by
    rw [← BitVec.toNat_inj]
    rfl
  have hnone : unpackMantissa b = 0#_ ↔ fractionOf b = 0 := by
    rw [← BitVec.toNat_inj]
    rfl
  rw [UnpackedFloat.unpack, ofFields]
  by_cases h : fieldOf b = 2047
  · rw [if_pos (hones.2 h), if_pos h]
    simp only [hnone]
    rfl
  · rw [if_neg (mt hones.1 h), if_neg h]
    by_cases hzero : fieldOf b = 0
    · rw [if_pos (hleast.2 hzero), if_pos hzero]
      by_cases hfraction : fractionOf b = 0
      · rw [dif_pos (hnone.2 hfraction), dif_neg (by omega)]
        rfl
      · rw [dif_neg (mt hnone.1 hfraction), dif_pos (by omega)]
        refine finite_congr rfl ?_
        change (fieldOf b : Int) - 1075 + 1 = -1074
        omega
    · rw [if_neg (mt hleast.1 hzero), if_neg hzero]
      exact finite_congr (toNat_one_append _) rfl

theorem unpack_packComponents (s : Sign) (field : BitVec 11) (fraction : BitVec 52) :
    UnpackedFloat.unpack Format.binary64 (packComponents Format.binary64 s field fraction) =
      ofFields s field.toNat fraction.toNat := by
  rw [unpack_eq, signOf, fieldOf, fractionOf, unpackSign_packComponents,
    unpackExponent_packComponents, unpackMantissa_packComponents, Sign.ofBitVec_toBitVec]

/-- A number that fits into a double. -/
def Storable : UnpackedFloat → Prop
  | .finite _ m e _ => Canonical m e ∧ e ≤ 971
  | _ => True

theorem storable_ofFields (s : Sign) {field fraction : Nat} (hfield : field < 2048)
    (hfraction : fraction < 2 ^ 52) : Storable (ofFields s field fraction) := by
  unfold ofFields
  split
  · split <;> trivial
  · split
    · split
      · exact ⟨⟨by omega, by omega, .inl rfl⟩, by omega⟩
      · trivial
    · exact ⟨⟨by omega, by omega, .inr (by omega)⟩, by omega⟩

theorem storable_unpack (x : Float.Model) : Storable x.unpack := by
  change Storable (UnpackedFloat.unpack Format.binary64 x.toBits.toBitVec)
  rw [unpack_eq]
  exact storable_ofFields _ (fieldOf_lt _) (fractionOf_lt _)

/-- The fields in which a number is stored. -/
theorem pack_finite (s : Sign) {m : Nat} {e : Int} (hm : 0 < m) :
    UnpackedFloat.pack Format.binary64 (.finite s m e hm) =
      if 2047 ≤ (e + 1075).toNat then packedInfinity Format.binary64 s
      else if m.log2 = 52 then
        packComponents Format.binary64 s (BitVec.ofNat 11 (e + 1075).toNat) (BitVec.ofNat 52 m)
      else packComponents Format.binary64 s 0#11 (BitVec.ofNat 52 m) := by
  have hfield : (e + Format.binary64.exponentBias + Format.binary64.mantissaBitsWithoutImplicit
      ).toNat = (e + 1075).toNat := by
    change (e + 1023 + 52).toNat = _
    omega
  have hlarge : 2 ^ Format.binary64.exponentBits ≤ (e + 1075).toNat + 1 ↔
      2047 ≤ (e + 1075).toNat := by
    change 2048 ≤ (e + 1075).toNat + 1 ↔ _
    omega
  have hfull : m.log2 + 1 = Format.binary64.mantissaBits ↔ m.log2 = 52 := by
    change m.log2 + 1 = 53 ↔ _
    omega
  rw [UnpackedFloat.pack]
  simp only [hfield, hlarge, hfull]

/-- What fits into a double is read back from it. -/
theorem unpack_pack_finite (s : Sign) {m : Nat} {e : Int} (hm : 0 < m) (h : Canonical m e)
    (he : e ≤ 971) : (Float.Model.pack (.finite s m e hm)).unpack = .finite s m e hm := by
  obtain ⟨hlt, hle, hfull⟩ := h
  change UnpackedFloat.unpack Format.binary64 (UnpackedFloat.pack Format.binary64 _) = _
  rw [pack_finite, if_neg (by omega)]
  by_cases hnormal : 2 ^ 52 ≤ m
  · have hlog : m.log2 = 52 := (Nat.log2_eq_iff (by omega)).2 ⟨hnormal, hlt⟩
    rw [if_pos hlog, unpack_packComponents, BitVec.toNat_ofNat, BitVec.toNat_ofNat, ofFields,
      if_neg (by omega), if_neg (by omega)]
    exact finite_congr (by omega) (by omega)
  · have hlog : m.log2 < 52 := (Nat.log2_lt (by omega)).2 (by omega)
    rw [if_neg (by omega), unpack_packComponents, BitVec.toNat_ofNat, BitVec.toNat_ofNat, ofFields,
      if_neg (by decide), if_pos rfl, dif_pos (by omega)]
    exact finite_congr (by omega) (by omega)

/-- What is too large for a double becomes an infinity. -/
theorem unpack_pack_large (s : Sign) {m : Nat} {e : Int} (hm : 0 < m) (he : 971 < e) :
    (Float.Model.pack (.finite s m e hm)).unpack = .infinity s := by
  change UnpackedFloat.unpack Format.binary64 (UnpackedFloat.pack Format.binary64 _) = _
  rw [pack_finite, if_pos (by omega)]
  cases s <;> rfl

theorem unpack_pack {u : UnpackedFloat} (h : Storable u) : (Float.Model.pack u).unpack = u := by
  cases u with
  | notANumber => rfl
  | infinity s => cases s <;> rfl
  | zero s => cases s <;> rfl
  | finite s m e hm => exact unpack_pack_finite s hm h.1 h.2

/-! Decoding -/

theorem fieldOf_eq (b : Bits) : fieldOf b = b.toNat / leadingBit % 2048 := by
  rw [fieldOf, unpackExponent_def, BitVec.extractLsb'_toNat, Nat.shiftRight_eq_div_pow]
  rfl

theorem fractionOf_eq (b : Bits) : fractionOf b = b.toNat % leadingBit := by
  rw [fractionOf, unpackMantissa_def, BitVec.extractLsb'_toNat, Nat.shiftRight_zero]
  rfl

theorem toNat_unpackSign (b : Bits) : (unpackSign b).toNat = b.toNat / signBit := by
  rw [unpackSign_def, BitVec.extractLsb'_toNat, Nat.shiftRight_eq_div_pow]
  refine Nat.mod_eq_of_lt ?_
  have hlt : b.toNat < 2 ^ 64 := b.isLt
  change b.toNat / 2 ^ 63 < 2
  omega

theorem signOf_beq_negative (b : Bits) :
    (signOf b == .negative) = decide (signBit ≤ b.toNat) := by
  have hpositive : unpackSign b = 0#1 ↔ b.toNat / signBit = 0 := by
    rw [← BitVec.toNat_inj, toNat_unpackSign]
    rfl
  rw [signOf, Sign.ofBitVec]
  by_cases h : signBit ≤ b.toNat
  · rw [if_neg (mt hpositive.1 (Nat.div_pos h (by decide)).ne'), decide_eq_true h]
    rfl
  · rw [if_pos (hpositive.2 (Nat.div_eq_of_lt (by omega))), decide_eq_false h]
    rfl

end Double

namespace Dyadic

open Float.Model Float.Model.UnpackedFloat

/-- What an unpacked double stands for. -/
def ofUnpacked : UnpackedFloat → Dyadic
  | .notANumber => .nan
  | .infinity s => .infinite (s == .negative)
  | .zero s => .finite (s == .negative) 0 (-1074)
  | .finite s m e _ => .finite (s == .negative) m e

/-- The units of `2 ^ -1074` in a finite number. -/
def units? : Dyadic → Option Int
  | .finite negative m e =>
      some (if negative then -(Double.unitsOf m e : Int) else Double.unitsOf m e)
  | _ => none

end Dyadic

namespace Double

open Float.Model Float.Model.UnpackedFloat

/-- Arithmetic and decoding read the bits of a double in the same way. -/
theorem decode_eq (x : Float) : decode x = .ofUnpacked x.toModel.unpack := by
  have hnegative : isNegative x = (signOf x.toBits.toBitVec == .negative) :=
    (signOf_beq_negative x.toBits.toBitVec).symm
  change _ = Dyadic.ofUnpacked (UnpackedFloat.unpack Format.binary64 x.toBits.toBitVec)
  rw [unpack_eq, decode, hnegative]
  have hfield := fieldOf_eq x.toBits.toBitVec
  have hfraction := fractionOf_eq x.toBits.toBitVec
  rw [UInt64.toNat_toBitVec] at hfield hfraction
  simp only [← hfield, ← hfraction]
  unfold ofFields
  split
  · split <;> rfl
  · split
    · split
      · rfl
      · rename_i hzero
        rw [Nat.eq_zero_of_not_pos hzero]
        rfl
    · rfl

/-- The units of `2 ^ -1074` in a finite double. -/
def units? (x : Float) : Option Int := (decode x).units?

def unpackedUnits? : UnpackedFloat → Option Int
  | .zero _ => some 0
  | .finite s m e _ => some (s.apply (unitsOf m e))
  | _ => none

theorem units?_eq (x : Float) : units? x = unpackedUnits? x.toModel.unpack := by
  rw [units?, decode_eq]
  cases x.toModel.unpack with
  | notANumber => rfl
  | infinity s => rfl
  | zero s => cases s <;> simp [Dyadic.ofUnpacked, Dyadic.units?, unpackedUnits?, unitsOf]
  | finite s m e hm => cases s <;> rfl

/-- What has a number of units is a zero or a finite number. -/
theorem zero_or_finite {u : UnpackedFloat} {n : Int} (h : unpackedUnits? u = some n) :
    (∃ s, u = .zero s ∧ n = 0) ∨
      ∃ s m e, ∃ hm : 0 < m, u = .finite s m e hm ∧ n = s.apply (unitsOf m e) := by
  cases u with
  | notANumber => cases h
  | infinity s => cases h
  | zero s => exact .inl ⟨s, rfl, (Option.some.inj h).symm⟩
  | finite s m e hm => exact .inr ⟨s, m, e, hm, rfl, (Option.some.inj h).symm⟩

theorem isFinite_eq (x : Float) : x.isFinite = (units? x).isSome := by
  rw [units?_eq]
  change x.toModel.unpack.isFinite = _
  cases x.toModel.unpack <;> rfl

/-- What fits into a double has the units of the double that it is packed into. -/
theorem units?_pack {u : UnpackedFloat} (h : Storable u) :
    units? (.ofModel (.pack u)) = unpackedUnits? u := by
  rw [units?_eq]
  exact congrArg unpackedUnits? (unpack_pack h)

/-- The exponent of half the step between the greatest doubles. It is kept from being evaluated,
like the numbers below. -/
@[irreducible] def lastExponent : Nat := 2044

theorem lastExponent_eq : lastExponent = 2044 := by
  unfold lastExponent
  rfl

/-- The first power of two that no double reaches, in units. -/
def limit : Nat := 2 ^ lastExponent * 2 ^ 54

/-- The least number of units that is rounded to an infinity. -/
def overflow : Nat := limit - 2 ^ lastExponent

/-- The number of units in the greatest finite double. -/
def greatest : Nat := limit - 2 * 2 ^ lastExponent

theorem rounded_lt_limit_iff (n : Nat) : rounded n < limit ↔ n < overflow := by
  unfold overflow limit
  exact rounded_lt_two_pow_iff n lastExponent

/-- The limit, with the mantissas of the least numbers beyond it and of those before it. -/
theorem limit_eq :
    limit = 2 ^ 52 * 2 ^ (lastExponent + 2) ∧ limit = 2 ^ 53 * 2 ^ (lastExponent + 1) := by
  unfold limit
  generalize lastExponent = k
  simp only [Nat.pow_succ]
  omega

theorem Canonical.unitsOf_lt_limit_iff {m : Nat} {e : Int} (h : Canonical m e) :
    unitsOf m e < limit ↔ e ≤ 971 := by
  obtain ⟨hlt, hle, hfull⟩ := h
  have hlast := lastExponent_eq
  constructor
  · intro hunits
    by_contra he
    have hexponent : 2 ^ (lastExponent + 2) ≤ 2 ^ (e + 1074).toNat :=
      Nat.pow_le_pow_right (by decide) (by omega)
    have hmantissa : 2 ^ 52 ≤ m := hfull.resolve_left (by omega)
    rw [limit_eq.1, unitsOf] at hunits
    exact absurd (Nat.mul_le_mul hmantissa hexponent) (Nat.not_le_of_lt hunits)
  · intro he
    have hexponent : 2 ^ (e + 1074).toNat ≤ 2 ^ (lastExponent + 1) :=
      Nat.pow_le_pow_right (by decide) (by omega)
    rw [limit_eq.2, unitsOf]
    exact Nat.mul_lt_mul_of_lt_of_le hlt hexponent (Nat.two_pow_pos _)

theorem overflow_pos : 0 < overflow := by
  have hpos := Nat.two_pow_pos lastExponent
  unfold overflow limit
  generalize 2 ^ lastExponent = step at *
  omega

theorem natAbs_apply (s : Sign) (n : Nat) : (s.apply n).natAbs = n := by
  cases s
  · exact Int.natAbs_neg n
  · rfl

theorem apply_rounded (s : Sign) {n : Nat} (hn : 0 < n) :
    s.apply (rounded n) = nearest (s.apply n) := by
  rw [nearest, natAbs_apply]
  cases s with
  | negative => exact (if_pos (by change -(n : Int) < 0; omega)).symm
  | positive => exact (if_neg (by change ¬(n : Int) < 0; omega)).symm

theorem Canonical.isShort {m : Nat} {e : Int} (h : Canonical m e) : IsShort (unitsOf m e) :=
  ⟨m, _, h.lt, rfl⟩

/-- The units of a double fit into 53 bits, and are not too many. -/
theorem isShort_of_storable {u : UnpackedFloat} (h : Storable u) {n : Int}
    (hn : unpackedUnits? u = some n) : IsShort n.natAbs ∧ n.natAbs < overflow := by
  rcases zero_or_finite hn with ⟨s, rfl, rfl⟩ | ⟨s, m, e, hm, rfl, rfl⟩
  · exact ⟨isShort_of_lt (by decide), overflow_pos⟩
  · have hlt := h.1.unitsOf_lt_limit_iff.2 h.2
    rw [← rounded_of_isShort h.1.isShort, rounded_lt_limit_iff] at hlt
    rw [natAbs_apply]
    exact ⟨h.1.isShort, hlt⟩

/-! Rounded results -/

/-- The double has this sign and this number of units, or is an infinity where that is too large. -/
structure Holds (x : Float) (s : Sign) (n : Nat) : Prop where
  finite : n < limit → units? x = some (s.apply n)
  infinite : limit ≤ n → x.isInf = true

theorem holds_of_stores {u : UnpackedFloat} {s : Sign} {n : Nat} (h : Stores u s n) :
    Holds (.ofModel (.pack u)) s n := by
  obtain ⟨m, e, hm, rfl, hcanonical, rfl⟩ := h
  constructor
  · intro hlt
    have hstorable : Storable (.finite s m e hm) :=
      ⟨hcanonical, hcanonical.unitsOf_lt_limit_iff.1 hlt⟩
    rw [units?_pack hstorable, unpackedUnits?]
  · intro hle
    have he : 971 < e :=
      Int.not_le.1 (mt hcanonical.unitsOf_lt_limit_iff.2 (Nat.not_lt.2 hle))
    exact congrArg UnpackedFloat.isInf (unpack_pack_large s hm he)

/-- The double is the nearest one to a number of units, or an infinity where that is too large. -/
structure IsRounded (x : Float) (n : Int) : Prop where
  finite : n.natAbs < overflow → units? x = some (nearest n)
  infinite : overflow ≤ n.natAbs → x.isInf = true

theorem isRounded_of_stores {u : UnpackedFloat} {s : Sign} {n : Nat} (hn : 0 < n)
    (h : Stores u s (rounded n)) : IsRounded (.ofModel (.pack u)) (s.apply n) := by
  obtain ⟨hfinite, hinfinite⟩ := holds_of_stores h
  rw [rounded_lt_limit_iff, apply_rounded s hn] at hfinite
  rw [← Nat.not_lt, rounded_lt_limit_iff, Nat.not_lt] at hinfinite
  constructor
  · rwa [natAbs_apply]
  · rwa [natAbs_apply]

/-- What a double can hold is not changed by rounding. -/
theorem isRounded_of_storable {u : UnpackedFloat} (h : Storable u) {n : Int}
    (hn : unpackedUnits? u = some n) : IsRounded (.ofModel (.pack u)) n := by
  obtain ⟨hshort, hlt⟩ := isShort_of_storable h hn
  refine ⟨fun _ => ?_, fun hle => absurd hlt (Nat.not_lt.2 hle)⟩
  rw [units?_pack h, hn, nearest_of_isShort hshort]

/-! Sums and differences -/

theorem isRounded_normalize (n : Int) {e : Int} (he : -1074 ≤ e) (zeroSign : Sign) :
    IsRounded (.ofModel (.pack (UnpackedFloat.normalize Format.binary64 n e zeroSign)))
      (n * 2 ^ (e + 1074).toNat) := by
  have hround : ∀ (s : Sign) (m : Nat), 0 < m →
      IsRounded (.ofModel (.pack (UnpackedFloat.round Format.binary64 s m e)))
        (s.apply m * 2 ^ (e + 1074).toNat) := by
    intro s m hm
    have hunits := unitsOf_pos hm e
    have happly : s.apply m * 2 ^ (e + 1074).toNat = s.apply (unitsOf m e) := by
      cases s <;> simp [Sign.apply, unitsOf]
    rw [happly]
    exact isRounded_of_stores hunits (stores_round s hm he)
  rcases lt_trichotomy n 0 with hneg | rfl | hpos
  · have hcompare : compare n 0 = .lt := compare_lt_iff_lt.2 hneg
    have happly : n = Sign.negative.apply ((-n).toNat : Int) := by
      change n = -((-n).toNat : Int)
      omega
    simp only [UnpackedFloat.normalize, hcompare]
    conv => arg 2; rw [happly]
    exact hround .negative (-n).toNat (by omega)
  · rw [Int.zero_mul]
    have hstorable : Storable (.zero zeroSign) := trivial
    exact isRounded_of_storable hstorable rfl
  · have hcompare : compare n 0 = .gt := compare_gt_iff_gt.2 hpos
    have happly : n = Sign.positive.apply (n.toNat : Int) := by
      change n = (n.toNat : Int)
      omega
    simp only [UnpackedFloat.normalize, hcompare]
    conv => arg 2; rw [happly]
    exact hround .positive n.toNat (by omega)

/-- A mantissa at a lower exponent has as many units. -/
theorem apply_shift_mul (s : Sign) (m : Nat) {e low : Int} (hlow : -1074 ≤ low) (hle : low ≤ e) :
    s.apply (m <<< (e - low).toNat : Nat) * 2 ^ (low + 1074).toNat = s.apply (unitsOf m e) := by
  rw [← unitsOf_shiftLeft m hlow hle, unitsOf]
  cases s <;> simp [Sign.apply]

/-- The sum of two finite numbers. -/
theorem isRounded_pack_add {u v : UnpackedFloat} (hu : Storable u) (hv : Storable v) {a b : Int}
    (ha : unpackedUnits? u = some a) (hb : unpackedUnits? v = some b) :
    IsRounded (.ofModel (.pack (UnpackedFloat.add Format.binary64 u v))) (a + b) := by
  rcases zero_or_finite ha with ⟨s, rfl, rfl⟩ | ⟨s, m, e, hm, rfl, rfl⟩
  · rw [Int.zero_add]
    rcases zero_or_finite hb with ⟨s', rfl, rfl⟩ | ⟨s', m, e, hm, rfl, rfl⟩
    · have hstorable : ∀ s, Storable (.zero s) := fun _ => trivial
      cases s <;> cases s' <;> exact isRounded_of_storable (hstorable _) rfl
    · exact isRounded_of_storable hv hb
  · rcases zero_or_finite hb with ⟨s', rfl, rfl⟩ | ⟨s', m', e', hm', rfl, rfl⟩
    · rw [Int.add_zero]
      exact isRounded_of_storable hu ha
    · have hlow : -1074 ≤ min e e' := le_min hu.1.le hv.1.le
      rw [← apply_shift_mul s m hlow (min_le_left e e'),
        ← apply_shift_mul s' m' hlow (min_le_right e e'), ← Int.add_mul]
      exact isRounded_normalize _ hlow .positive

theorem storable_neg {u : UnpackedFloat} (h : Storable u) : Storable u.neg := by
  cases u <;> exact h

theorem apply_neg (s : Sign) (n : Int) : (-s).apply n = -s.apply n := by
  cases s
  · exact (Int.neg_neg n).symm
  · rfl

theorem unpackedUnits?_neg (u : UnpackedFloat) :
    unpackedUnits? u.neg = (unpackedUnits? u).map (-·) := by
  cases u with
  | notANumber => rfl
  | infinity s => rfl
  | zero s => rfl
  | finite s m e hm => exact congrArg some (apply_neg s _)

/-- A difference is a sum with the opposite number. -/
theorem sub_eq_add_neg (u v : UnpackedFloat) :
    UnpackedFloat.sub Format.binary64 u v = UnpackedFloat.add Format.binary64 u v.neg := by
  cases u <;> cases v
  case finite.finite s m e hm s' m' e' hm' =>
    simp only [UnpackedFloat.sub, UnpackedFloat.neg, UnpackedFloat.add, apply_neg,
      Int.sub_eq_add_neg]
  all_goals rfl

theorem apply_inj {s s' : Sign} {n n' : Nat} (hn : 0 < n) (h : s.apply n = s'.apply n') :
    s = s' ∧ n = n' := by
  cases s <;> cases s' <;> simp only [Sign.apply] at h
  all_goals simp
  all_goals omega

theorem apply_unitsOf_ne_zero (s : Sign) {m : Nat} (e : Int) (hm : 0 < m) :
    s.apply (unitsOf m e) ≠ 0 := by
  intro hzero
  have hunits := unitsOf_pos hm e
  have := natAbs_apply s (unitsOf m e)
  rw [hzero, Int.natAbs_zero] at this
  omega

/-- A number of units other than zero has one stored form. -/
theorem beq_of_unpackedUnits? {u v : UnpackedFloat} (hu : Storable u) (hv : Storable v) {a : Int}
    (ha : unpackedUnits? u = some a) (hb : unpackedUnits? v = some a) : u.beq v = true := by
  rcases zero_or_finite ha with ⟨s, rfl, rfl⟩ | ⟨s, m, e, hm, rfl, rfl⟩
  · rcases zero_or_finite hb with ⟨s', rfl, _⟩ | ⟨s', m', e', hm', rfl, hzero⟩
    · rfl
    · exact absurd hzero.symm (apply_unitsOf_ne_zero s' e' hm')
  · rcases zero_or_finite hb with ⟨s', rfl, hzero⟩ | ⟨s', m', e', hm', rfl, happly⟩
    · exact absurd hzero (apply_unitsOf_ne_zero s e hm)
    · have hunits := unitsOf_pos hm e
      obtain ⟨rfl, hsame⟩ := apply_inj hunits happly
      obtain ⟨rfl, rfl⟩ := hu.1.unique hv.1 hsame
      exact (beq_iff_ne_notANumber_and_eq _ _).2 ⟨by simp, by simp, .inl rfl⟩

section Operations

variable {x y : Float} {a b : Int}

theorem isShort_of_units? (hx : units? x = some a) : IsShort a.natAbs ∧ a.natAbs < overflow := by
  rw [units?_eq] at hx
  exact isShort_of_storable (storable_unpack _) hx

/-- The sum of two finite doubles. -/
theorem isRounded_add (hx : units? x = some a) (hy : units? y = some b) :
    IsRounded (x + y) (a + b) := by
  rw [units?_eq] at hx hy
  exact isRounded_pack_add (storable_unpack _) (storable_unpack _) hx hy

/-- The difference of two finite doubles. -/
theorem isRounded_sub (hx : units? x = some a) (hy : units? y = some b) :
    IsRounded (x - y) (a - b) := by
  rw [units?_eq] at hx hy
  have hneg : unpackedUnits? y.toModel.unpack.neg = some (-b) := by
    rw [unpackedUnits?_neg, hy]
    rfl
  have hsum := isRounded_pack_add (storable_unpack _) (storable_neg (storable_unpack _)) hx hneg
  rw [← sub_eq_add_neg] at hsum
  exact hsum

/-- Doubles with as many units are equal. -/
theorem beq_of_units? (hx : units? x = some a) (hy : units? y = some a) : (x == y) = true := by
  rw [units?_eq] at hx hy
  exact beq_of_unpackedUnits? (storable_unpack x.toModel) (storable_unpack y.toModel) hx hy

end Operations

/-! Numbers that are not finite -/

section NotFinite

variable {x y : Float}

theorem unpack_add (x y : Float) : (x + y).toModel.unpack = (Float.Model.pack
    (UnpackedFloat.add Format.binary64 x.toModel.unpack y.toModel.unpack)).unpack :=
  rfl

theorem unpack_sub (x y : Float) : (x - y).toModel.unpack = (Float.Model.pack
    (UnpackedFloat.sub Format.binary64 x.toModel.unpack y.toModel.unpack)).unpack :=
  rfl

theorem notANumber_add (u : UnpackedFloat) :
    UnpackedFloat.add Format.binary64 .notANumber u = .notANumber := by
  cases u <;> rfl

theorem add_infinity {u : UnpackedFloat} (hu : u.isFinite = true) (s : Sign) :
    UnpackedFloat.add Format.binary64 u (.infinity s) = .infinity s := by
  cases u with
  | notANumber => cases hu
  | infinity s' => cases hu
  | zero s' => rfl
  | finite s' m e hm => rfl

theorem sub_infinity {u : UnpackedFloat} (hu : u.isFinite = true) (s : Sign) :
    UnpackedFloat.sub Format.binary64 u (.infinity s) = .infinity (-s) := by
  rw [sub_eq_add_neg]
  exact add_infinity hu (-s)

/-- What is not finite cannot be taken away and put back. -/
theorem isNaN_add_sub (hx : x.isFinite = true) (hy : y.isFinite = false) :
    (y + (x - y)).isNaN = true := by
  change x.toModel.unpack.isFinite = true at hx
  change y.toModel.unpack.isFinite = false at hy
  change (y + (x - y)).toModel.unpack.isNaN = true
  rw [unpack_add]
  cases hv : y.toModel.unpack with
  | notANumber =>
      rw [notANumber_add]
      rfl
  | zero s =>
      rw [hv] at hy
      cases hy
  | finite s m e hm =>
      rw [hv] at hy
      cases hy
  | infinity s =>
      have hopposite : Storable (.infinity (-s)) := trivial
      rw [unpack_sub, hv, sub_infinity hx, unpack_pack hopposite]
      cases s <;> rfl

/-- An infinity stays one when a finite double is added. -/
theorem isInf_add (hx : x.isFinite = true) (hy : y.isInf = true) : (x + y).isInf = true := by
  change x.toModel.unpack.isFinite = true at hx
  change y.toModel.unpack.isInf = true at hy
  change (x + y).toModel.unpack.isInf = true
  rw [unpack_add]
  cases hv : y.toModel.unpack with
  | notANumber =>
      rw [hv] at hy
      cases hy
  | zero s =>
      rw [hv] at hy
      cases hy
  | finite s m e hm =>
      rw [hv] at hy
      cases hy
  | infinity s =>
      have hstorable : Storable (.infinity s) := trivial
      rw [add_infinity hx, unpack_pack hstorable]
      rfl

end NotFinite

/-! Numbers of units -/

section Units

variable {x : Float} {a b : Int}

theorem isFinite_of_units? (hx : units? x = some a) : x.isFinite = true := by
  rw [isFinite_eq, hx]
  rfl

theorem units?_of_isFinite (hx : x.isFinite = true) : ∃ a, units? x = some a :=
  Option.isSome_iff_exists.1 ((isFinite_eq x).symm.trans hx)

theorem units?_of_isInf (hx : x.isInf = true) : units? x = none := by
  change x.toModel.unpack.isInf = true at hx
  rw [units?_eq]
  cases hu : x.toModel.unpack with
  | infinity s => rfl
  | notANumber =>
      rw [hu] at hx
      cases hx
  | zero s =>
      rw [hu] at hx
      cases hx
  | finite s m e hm =>
      rw [hu] at hx
      cases hx

/-- What is rounded has a number of units if it is not too large. -/
theorem IsRounded.of_units? (h : IsRounded x b) (hx : units? x = some a) :
    b.natAbs < overflow ∧ a = nearest b := by
  by_cases hlt : b.natAbs < overflow
  · exact ⟨hlt, Option.some.inj (hx.symm.trans (h.finite hlt))⟩
  · have hnone := units?_of_isInf (h.infinite (Nat.le_of_not_lt hlt))
    rw [hx] at hnone
    cases hnone

end Units

/-! Natural numbers -/

theorem one_eq : Float.exactlyRepresentablePowersOfTen[0] =
    .ofModel (.pack (.finite .positive (2 ^ 52) (-52) (by decide))) := by
  decide +kernel

/-- A product is rounded where one factor is a power of two that moves the other one far up. -/
theorem isRounded_roundWithAccuracy {m k : Nat} {e : Int} (hm : 0 < m) (hk : 52 ≤ k)
    (he : -1074 ≤ e - k) :
    IsRounded (.ofModel (.pack
      (roundWithAccuracy Format.binary64 .positive (m * 2 ^ k) (e - k) .exact))) (unitsOf m e) := by
  have hpos : 0 < m * 2 ^ k := Nat.mul_pos hm (Nat.two_pow_pos k)
  have hlog : 52 ≤ (m * 2 ^ k).log2 := by
    rw [log2_mul_two_pow (by omega)]
    omega
  rw [← unitsOf_mul_two_pow m k he]
  exact isRounded_of_stores (Nat.mul_pos hpos (Nat.two_pow_pos _))
    (stores_roundWithAccuracy .positive hpos he (.inl hlog))

/-- The exponent at which a whole number of up to 53 bits is stored. -/
theorem Canonical.exponent_of_nat {m n : Nat} {e : Int} (h : Canonical m e) (hpos : 0 < n)
    (hlt : n < 2 ^ 53) (hunits : unitsOf m e = unitsOf n 0) : -53 < e ∧ e ≤ 0 := by
  obtain ⟨hm, hle, hfull⟩ := h
  obtain ⟨k, hk⟩ : ∃ k, ((0 : Int) + 1074).toNat = k := ⟨_, rfl⟩
  rw [unitsOf, unitsOf, hk] at hunits
  constructor
  · by_contra he
    have hpower : 2 ^ 53 * 2 ^ (e + 1074).toNat ≤ 2 ^ k := by
      rw [← Nat.pow_add]
      exact Nat.pow_le_pow_right (by decide) (by omega)
    have hless : m * 2 ^ (e + 1074).toNat < 2 ^ 53 * 2 ^ (e + 1074).toNat :=
      Nat.mul_lt_mul_of_pos_right hm (Nat.two_pow_pos _)
    have hmore : 1 * 2 ^ k ≤ n * 2 ^ k := Nat.mul_le_mul_right _ hpos
    generalize 2 ^ (e + 1074).toNat = p at *
    generalize 2 ^ k = q at *
    omega
  · by_contra he
    have hpower : 2 ^ 53 * 2 ^ k ≤ 2 ^ 52 * 2 ^ (e + 1074).toNat := by
      rw [← Nat.pow_add, ← Nat.pow_add]
      exact Nat.pow_le_pow_right (by decide) (by omega)
    have hless : n * 2 ^ k < 2 ^ 53 * 2 ^ k := Nat.mul_lt_mul_of_pos_right hlt (Nat.two_pow_pos _)
    have hmore : 2 ^ 52 * 2 ^ (e + 1074).toNat ≤ m * 2 ^ (e + 1074).toNat :=
      Nat.mul_le_mul_right _ (hfull.resolve_left (by omega))
    generalize 2 ^ (e + 1074).toNat = p at *
    generalize 2 ^ k = q at *
    omega

/-- A natural number as a double. -/
theorem isRounded_ofNat (n : Nat) : IsRounded (Float.ofNat n) (unitsOf n 0) := by
  have hof : Float.ofNat n = Float.ofScientific n false 0 := rfl
  by_cases hzero : n = 0
  · have hfloat : Float.ofNat 0 = .ofModel (.pack (.zero .positive)) := by decide +kernel
    have hstorable : Storable (.zero .positive) := trivial
    rw [hzero, hfloat, unitsOf, Nat.zero_mul]
    exact isRounded_of_storable hstorable rfl
  have hpos : 0 < n := Nat.pos_of_ne_zero hzero
  by_cases hsmall : n < 2 ^ 53
  · -- the number is stored as it is, and multiplied by one
    obtain ⟨m, e, hm, hround, hcanonical, hunits⟩ :=
      stores_round .positive (e := 0) hpos (by decide)
    have hshort : IsShort (unitsOf n 0) := ⟨n, _, hsmall, rfl⟩
    rw [rounded_of_isShort hshort] at hunits
    have he := hcanonical.exponent_of_nat hpos hsmall hunits
    have hstored : n.toUInt64.toFloat = .ofModel (.pack (.finite .positive m e hm)) := by
      have hnat : n.toUInt64.toNat = n := Nat.mod_eq_of_lt (by omega)
      have hcompare : compare (n : Int) 0 = .gt := compare_gt_iff_gt.2 (by omega)
      change Float.ofModel (.pack (UnpackedFloat.normalize Format.binary64 n.toUInt64.toNat 0
        .positive)) = _
      rw [hnat]
      simp only [UnpackedFloat.normalize, hcompare, Int.toNat_natCast, hround]
    have hproduct : Float.ofNat n = .ofModel (.pack
        (roundWithAccuracy Format.binary64 .positive (m * 2 ^ 52) (e - 52) .exact)) := by
      have hstorable : Storable (.finite .positive m e hm) := ⟨hcanonical, by omega⟩
      have hone : Storable (.finite .positive (2 ^ 52) (-52) (by decide)) :=
        ⟨⟨by decide, by decide, by decide⟩, by decide⟩
      rw [hof, Float.ofScientific, dif_pos ⟨hsmall, by decide⟩]
      change n.toUInt64.toFloat * Float.exactlyRepresentablePowersOfTen[0] = _
      rw [hstored, one_eq]
      change Float.ofModel (.pack (UnpackedFloat.mul Format.binary64
        (Float.Model.pack _).unpack (Float.Model.pack _).unpack)) = _
      rw [unpack_pack hstorable, unpack_pack hone]
      rfl
    rw [hproduct, ← hunits]
    exact isRounded_roundWithAccuracy hm (by decide) (by omega)
  · have hmodel : UnpackedFloat.ofScientific Format.binary64 n 0 =
        roundWithAccuracy Format.binary64 .positive (n * 2 ^ 53) (0 - 53) .exact := by
      have hlow : ¬(0 : Int) < -((2 ^ Format.binary64.exponentBits : Int) + n.log2) := by
        change ¬(0 : Int) < -(2048 + n.log2)
        omega
      rw [UnpackedFloat.ofScientific, dif_neg hzero, if_neg (by decide), if_neg hlow,
        if_pos (by decide)]
      change roundWithAccuracy Format.binary64 .positive (n <<< 53 * 1) (-53 + 0) .exact = _
      rw [Nat.shiftLeft_eq, Nat.mul_one]
      rfl
    rw [hof, Float.ofScientific, dif_neg (by omega)]
    change IsRounded (.ofModel (.pack (UnpackedFloat.ofScientific Format.binary64 n 0))) _
    rw [hmodel]
    exact isRounded_roundWithAccuracy (k := 53) hpos (by decide) (by decide)

/-! Positive numbers -/

theorem lt_iff (x y : Float) :
    x < y ↔ x.toModel.unpack.lt y.toModel.unpack = true := by
  change decide (x.toModel < y.toModel) = true ↔ _
  rw [decide_eq_true_iff]
  rfl

theorem zero_eq : (0 : Float) = .ofModel (.pack (.zero .positive)) := by
  decide +kernel

theorem unpack_zero : (0 : Float).toModel.unpack = .zero .positive := by
  have hstorable : Storable (.zero .positive) := trivial
  rw [zero_eq]
  exact unpack_pack hstorable

/-- The positive finite doubles. -/
theorem pos_iff_of_units? {x : Float} {n : Int} (hx : units? x = some n) : 0 < x ↔ 0 < n := by
  rw [units?_eq] at hx
  rw [lt_iff, unpack_zero]
  rcases zero_or_finite hx with ⟨s, hu, rfl⟩ | ⟨s, m, e, hm, hu, rfl⟩
  · rw [hu]
    simp [UnpackedFloat.lt, UnpackedFloat.compare]
  · rw [hu]
    have hunits := unitsOf_pos hm e
    cases s with
    | negative => simp [UnpackedFloat.lt, UnpackedFloat.compare, Sign.apply]
    | positive => simpa [UnpackedFloat.lt, UnpackedFloat.compare, Sign.apply] using hunits

/-! Natural numbers that are too large -/

/-- The least natural number that is rounded to an infinity. -/
def leastInfinite : Nat := 2 ^ 1024 - 2 ^ 970

theorem unitsOf_lt_iff (m n : Nat) (e : Int) : unitsOf m e < unitsOf n e ↔ m < n :=
  Nat.mul_lt_mul_right (Nat.two_pow_pos _)

theorem overflow_eq : overflow = unitsOf leastInfinite 0 := by
  have hscale : ∀ last j j' k : Nat, last = j + k → j' = j + 54 →
      2 ^ last * 2 ^ 54 - 2 ^ last = (2 ^ j' - 2 ^ j) * 2 ^ k := by
    rintro _ j _ k rfl rfl
    rw [Nat.sub_mul, Nat.pow_add 2 j 54, Nat.pow_add 2 j k, Nat.mul_right_comm]
  unfold overflow limit leastInfinite unitsOf
  exact hscale lastExponent 970 1024 _ lastExponent_eq rfl

theorem unitsOf_lt_overflow_iff (n : Nat) : unitsOf n 0 < overflow ↔ n < leastInfinite := by
  rw [overflow_eq]
  exact unitsOf_lt_iff n leastInfinite 0

theorem isInf_ofNat {n : Nat} (h : leastInfinite ≤ n) : (Float.ofNat n).isInf = true :=
  (isRounded_ofNat n).infinite (Nat.not_lt.1 (mt (unitsOf_lt_overflow_iff n).1 (Nat.not_lt.2 h)))

/-- A positive natural number that is not too large is a positive finite double. -/
theorem ofNat_pos_and_isFinite {n : Nat} (hpos : 0 < n) (h : n < leastInfinite) :
    0 < Float.ofNat n ∧ (Float.ofNat n).isFinite = true := by
  have hunits := (isRounded_ofNat n).finite ((unitsOf_lt_overflow_iff n).2 h)
  refine ⟨(pos_iff_of_units? hunits).2 ?_, isFinite_of_units? hunits⟩
  have herror := nearest_error_le (unitsOf n 0)
  have hunitsPos := unitsOf_pos hpos 0
  omega

theorem not_isInf_of_isFinite {x : Float} (h : x.isFinite = true) : x.isInf = false := by
  obtain ⟨a, ha⟩ := units?_of_isFinite h
  by_contra hinf
  have hnone := units?_of_isInf (eq_true_of_ne_false hinf)
  rw [ha] at hnone
  cases hnone

end Double

end FlightCurve

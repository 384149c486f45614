import FlightCurve.Proofs.Identities
import FlightCurve.Vocabulary

/-!
Numbers without a sign. A literal is read, and a constant stands, for a number that is not NaN and
has no sign: it comes from positive numbers by products and quotients, and rounding and storing keep
the sign.
-/

namespace FlightCurve

namespace Double

open Float.Model Float.Model.UnpackedFloat

/-- The double is a number, and it has no sign. -/
def IsUnsigned (x : Float) : Prop :=
  decode x = .infinite false ∨ ∃ m e, decode x = .finite false m e

/-- The same of an unpacked number. -/
def IsPositive : UnpackedFloat → Prop
  | .notANumber => False
  | .infinity s => s = .positive
  | .zero s => s = .positive
  | .finite s _ _ _ => s = .positive

theorem IsPositive.cases {u : UnpackedFloat} (h : IsPositive u) :
    u = .infinity .positive ∨ u = .zero .positive ∨ ∃ m e hm, u = .finite .positive m e hm := by
  cases u with
  | notANumber => exact h.elim
  | infinity s => exact .inl (congrArg UnpackedFloat.infinity h)
  | zero s => exact .inr (.inl (congrArg UnpackedFloat.zero h))
  | finite s m e hm =>
      obtain rfl : s = .positive := h
      exact .inr (.inr ⟨m, e, hm, rfl⟩)

theorem isUnsigned_iff {x : Float} : IsUnsigned x ↔ IsPositive x.toModel.unpack := by
  rw [IsUnsigned, decode_eq]
  cases x.toModel.unpack with
  | notANumber => simp [Dyadic.ofUnpacked, IsPositive]
  | infinity s => cases s <;> simp [Dyadic.ofUnpacked, IsPositive]
  | zero s => cases s <;> simp [Dyadic.ofUnpacked, IsPositive]
  | finite s m e hm => cases s <;> simp [Dyadic.ofUnpacked, IsPositive]

/-! Operations -/

/-- Rounding keeps the sign. -/
theorem isPositive_roundWithAccuracy (m : Nat) (e : Int) (acc : Accuracy) :
    IsPositive (roundWithAccuracy Format.binary64 .positive m e acc) := by
  unfold roundWithAccuracy
  dsimp only
  split <;> rfl

theorem isPositive_ofFields {field : Nat} (h : field ≠ 2047) (fraction : Nat) :
    IsPositive (ofFields .positive field fraction) := by
  rw [ofFields, if_neg h]
  split
  · split <;> rfl
  · rfl

/-- So does storing: what is too large becomes an infinity. -/
theorem isPositive_pack {u : UnpackedFloat} (h : IsPositive u) :
    IsPositive (Float.Model.pack u).unpack := by
  rcases h.cases with rfl | rfl | ⟨m, e, hm, rfl⟩
  · rfl
  · rfl
  · change IsPositive (UnpackedFloat.unpack Format.binary64 (UnpackedFloat.pack Format.binary64 _))
    rw [pack_finite]
    split
    · rfl
    · split
      · rename_i hfield _
        rw [unpack_packComponents]
        refine isPositive_ofFields ?_ _
        rw [BitVec.toNat_ofNat]
        omega
      · rw [unpack_packComponents]
        exact isPositive_ofFields (by decide) _

theorem isUnsigned_ofModel_pack {u : UnpackedFloat} (h : IsPositive u) :
    IsUnsigned (.ofModel (.pack u)) :=
  isUnsigned_iff.2 (isPositive_pack h)

/-- A positive number that is neither zero nor infinite. -/
def IsFinitePositive : UnpackedFloat → Bool
  | .finite .positive _ _ _ => true
  | _ => false

theorem exists_of_isFinitePositive {u : UnpackedFloat} (h : IsFinitePositive u = true) :
    ∃ m e hm, u = .finite .positive m e hm := by
  cases u with
  | finite s m e hm =>
      cases s with
      | positive => exact ⟨m, e, hm, rfl⟩
      | negative => cases h
  | _ => cases h

section Operations

variable {u v : UnpackedFloat}

theorem isPositive_mul (hu : IsPositive u) (hv : IsFinitePositive v = true) :
    IsPositive (UnpackedFloat.mul Format.binary64 u v) := by
  obtain ⟨m, e, hm, rfl⟩ := exists_of_isFinitePositive hv
  rcases hu.cases with rfl | rfl | ⟨m', e', hm', rfl⟩
  · rfl
  · rfl
  · exact isPositive_roundWithAccuracy _ _ _

theorem isPositive_div (hu : IsPositive u) (hv : IsFinitePositive v = true) :
    IsPositive (UnpackedFloat.div Format.binary64 u v) := by
  obtain ⟨m, e, hm, rfl⟩ := exists_of_isFinitePositive hv
  rcases hu.cases with rfl | rfl | ⟨m', e', hm', rfl⟩
  · rfl
  · rfl
  · exact isPositive_roundWithAccuracy _ _ _

end Operations

theorem isUnsigned_mul {x y : Float} (hx : IsUnsigned x)
    (hy : IsFinitePositive y.toModel.unpack = true) : IsUnsigned (x * y) :=
  isUnsigned_ofModel_pack (isPositive_mul (isUnsigned_iff.1 hx) hy)

theorem isUnsigned_div {x y : Float} (hx : IsUnsigned x)
    (hy : IsFinitePositive y.toModel.unpack = true) : IsUnsigned (x / y) :=
  isUnsigned_ofModel_pack (isPositive_div (isUnsigned_iff.1 hx) hy)

/-! Decimals -/

theorem isUnsigned_toFloat (n : UInt64) : IsUnsigned n.toFloat := by
  refine isUnsigned_ofModel_pack ?_
  change IsPositive (UnpackedFloat.normalize Format.binary64 n.toNat 0 .positive)
  unfold UnpackedFloat.normalize
  split
  · rename_i hnegative
    have := compare_lt_iff_lt.1 hnegative
    omega
  · rfl
  · exact isPositive_roundWithAccuracy _ _ _

theorem isFinitePositive_powerOfTen : ∀ e : Fin 23,
    IsFinitePositive (Float.exactlyRepresentablePowersOfTen[e]).toModel.unpack = true := by
  decide +kernel

theorem isPositive_ofScientific (m : Nat) (e : Int) :
    IsPositive (UnpackedFloat.ofScientific Format.binary64 m e) := by
  unfold UnpackedFloat.ofScientific
  split
  · rfl
  · split
    · rfl
    · split
      · rfl
      · split
        · exact isPositive_mul rfl rfl
        · exact isPositive_div rfl rfl

/-- A decimal without a sign is a double without a sign. -/
theorem isUnsigned_ofScientific (m : Nat) (negative : Bool) (e : Nat) :
    IsUnsigned (Float.ofScientific m negative e) := by
  unfold Float.ofScientific
  split
  · rename_i hsmall
    have hpower := isFinitePositive_powerOfTen ⟨e, by omega⟩
    dsimp only
    split
    · exact isUnsigned_div (isUnsigned_toFloat _) hpower
    · exact isUnsigned_mul (isUnsigned_toFloat _) hpower
  · exact isUnsigned_ofModel_pack (isPositive_ofScientific _ _)

theorem isUnsigned_zero : IsUnsigned 0 := by
  rw [isUnsigned_iff, unpack_zero]
  rfl

theorem isUnsigned_one_div_zero : IsUnsigned (1 / 0) := by
  refine isUnsigned_ofModel_pack ?_
  rw [unpack_one, unpack_zero]
  rfl

end Double

open Double

theorem Decimal.isUnsigned_toDouble (m : Nat) (e : Int) : IsUnsigned (toDouble m e) := by
  unfold toDouble
  split
  · exact isUnsigned_zero
  · split
    · exact isUnsigned_one_div_zero
    · split
      · exact isUnsigned_zero
      · exact isUnsigned_ofScientific _ _ _

/-- Literals have no sign: the one before a literal is an operator. -/
theorem Decimal.isUnsigned_readLiteral (cs : List Char) : IsUnsigned (readLiteral cs) :=
  isUnsigned_toDouble _ _

/-- Named constants have no sign. -/
theorem isUnsigned_constant {name : String} {value : Float} (h : constant? name = some value) :
    IsUnsigned value := by
  have hmem : ∀ p ∈ constants, IsUnsigned p.2 := by
    simp only [constants, List.forall_mem_cons]
    exact ⟨isUnsigned_ofScientific _ _ _, isUnsigned_ofScientific _ _ _,
      isUnsigned_ofScientific _ _ _, List.forall_mem_nil _⟩
  obtain ⟨before, after, hsplit, -⟩ := List.lookup_eq_some_iff.1 h
  exact hmem (name, value) (hsplit ▸ List.mem_append_right _ List.mem_cons_self)

end FlightCurve

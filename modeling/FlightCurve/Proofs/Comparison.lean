import FlightCurve.Proofs.Identities
import FlightCurve.Proofs.Quotients

/-!
The order of doubles. Every double but a NaN has a rank: its units, or for an infinity the first
power of two that no double reaches. Doubles are compared as their ranks are, and nothing is
compared with a NaN.
-/

namespace FlightCurve

namespace Double

open Float.Model Float.Model.UnpackedFloat

/-! Comparison of whole numbers -/

theorem compare_neg (a b : Int) : compare (-a) (-b) = (compare a b).swap := by
  rcases lt_trichotomy a b with h | rfl | h
  · rw [compare_lt_iff_lt.2 h]
    exact compare_gt_iff_gt.2 (Int.neg_lt_neg h)
  · rw [compare_eq_iff_eq.2 rfl, compare_eq_iff_eq.2 rfl]
    rfl
  · rw [compare_gt_iff_gt.2 h]
    exact compare_lt_iff_lt.2 (Int.neg_lt_neg h)

theorem compare_mul_right (m m' : Nat) {k : Nat} (hk : 0 < k) :
    compare ((m * k : Nat) : Int) ((m' * k : Nat) : Int) = compare m m' := by
  rcases lt_trichotomy m m' with h | rfl | h
  · rw [compare_lt_iff_lt.2 h]
    exact compare_lt_iff_lt.2 (Int.ofNat_lt.2 (Nat.mul_lt_mul_of_pos_right h hk))
  · rw [compare_eq_iff_eq.2 rfl, compare_eq_iff_eq.2 rfl]
  · rw [compare_gt_iff_gt.2 h]
    exact compare_gt_iff_gt.2 (Int.ofNat_lt.2 (Nat.mul_lt_mul_of_pos_right h hk))

/-- Stored numbers are compared by their exponents first. -/
theorem Canonical.compare_unitsOf {m m' : Nat} {e e' : Int} (h : Canonical m e)
    (h' : Canonical m' e') :
    (compare e e').then (compare m m') = compare (unitsOf m e : Int) (unitsOf m' e') := by
  rcases lt_trichotomy e e' with hlt | rfl | hgt
  · have hunits := h.unitsOf_lt h' hlt
    rw [compare_lt_iff_lt.2 hlt, compare_lt_iff_lt.2 (Int.ofNat_lt.2 hunits)]
    rfl
  · rw [compare_eq_iff_eq.2 rfl, unitsOf, unitsOf, compare_mul_right m m' (Nat.two_pow_pos _)]
    rfl
  · have hunits := h'.unitsOf_lt h hgt
    rw [compare_gt_iff_gt.2 hgt, compare_gt_iff_gt.2 (Int.ofNat_lt.2 hunits)]
    rfl

/-! Ranks -/

def unpackedRank? : UnpackedFloat → Option Int
  | .notANumber => none
  | .infinity s => some (s.apply limit)
  | .zero _ => some 0
  | .finite s m e _ => some (s.apply (unitsOf m e))

/-- The greater size decides, -/
theorem negative_lt {b : Int} {n : Nat} (h : b.natAbs < n) : Sign.negative.apply n < b := by
  simp only [Sign.apply]
  omega

theorem lt_positive {b : Int} {n : Nat} (h : b.natAbs < n) : b < Sign.positive.apply n := by
  simp only [Sign.apply]
  omega

/-- or the sign. -/
theorem negative_lt_positive {m n : Nat} (hm : 0 < m) (hn : 0 < n) :
    Sign.negative.apply m < Sign.positive.apply n := by
  simp only [Sign.apply]
  omega

section Compare

variable {u v : UnpackedFloat} {a b : Int}

/-- Only an infinity has the rank of one. -/
theorem natAbs_lt_limit (hu : Storable u) (ha : unpackedRank? u = some a)
    (hinf : ∀ s, u ≠ .infinity s) : a.natAbs < limit := by
  cases u with
  | notANumber => cases ha
  | infinity s => exact absurd rfl (hinf s)
  | zero s =>
      cases ha
      exact limit_pos
  | finite s m e hm =>
      cases ha
      rw [natAbs_apply]
      exact hu.1.unitsOf_lt_limit_iff.2 hu.2

/-- What an infinity is compared with, infinite or not. -/
theorem infinity_compare (s : Sign) (hv : Storable v) (hb : unpackedRank? v = some b) :
    UnpackedFloat.compare (.infinity s) v = some (compare (s.apply limit) b) := by
  cases v with
  | notANumber => cases hb
  | infinity s' =>
      cases hb
      cases s <;> cases s'
      · exact congrArg some (compare_eq_iff_eq.2 rfl).symm
      · exact congrArg some (compare_lt_iff_lt.2 (negative_lt_positive limit_pos limit_pos)).symm
      · exact congrArg some (compare_gt_iff_gt.2 (negative_lt_positive limit_pos limit_pos)).symm
      · exact congrArg some (compare_eq_iff_eq.2 rfl).symm
  | _ =>
      have hlt := natAbs_lt_limit hv hb nofun
      cases s with
      | negative => exact congrArg some (compare_lt_iff_lt.2 (negative_lt hlt)).symm
      | positive => exact congrArg some (compare_gt_iff_gt.2 (lt_positive hlt)).symm

theorem compare_infinity (s : Sign) (hu : Storable u) (ha : unpackedRank? u = some a)
    (hinf : ∀ s, u ≠ .infinity s) :
    UnpackedFloat.compare u (.infinity s) = some (compare a (s.apply limit)) := by
  have hlt := natAbs_lt_limit hu ha hinf
  have hsigns : UnpackedFloat.compare u (.infinity s) =
      some (match s with | .negative => .gt | .positive => .lt) := by
    cases u with
    | notANumber => cases ha
    | infinity s' => exact absurd rfl (hinf s')
    | _ => cases s <;> rfl
  rw [hsigns]
  cases s with
  | negative => exact congrArg some (compare_gt_iff_gt.2 (negative_lt hlt)).symm
  | positive => exact congrArg some (compare_lt_iff_lt.2 (lt_positive hlt)).symm

theorem finite_compare_zero (s s' : Sign) {m : Nat} {e : Int} (hm : 0 < m) :
    UnpackedFloat.compare (.finite s m e hm) (.zero s') =
      some (compare (s.apply (unitsOf m e)) 0) := by
  have hpos : Int.natAbs 0 < unitsOf m e := unitsOf_pos hm e
  cases s with
  | negative => exact congrArg some (compare_lt_iff_lt.2 (negative_lt hpos)).symm
  | positive => exact congrArg some (compare_gt_iff_gt.2 (lt_positive hpos)).symm

theorem zero_compare_finite (s s' : Sign) {m : Nat} {e : Int} (hm : 0 < m) :
    UnpackedFloat.compare (.zero s') (.finite s m e hm) =
      some (compare 0 (s.apply (unitsOf m e))) := by
  have hpos : Int.natAbs 0 < unitsOf m e := unitsOf_pos hm e
  cases s with
  | negative => exact congrArg some (compare_gt_iff_gt.2 (negative_lt hpos)).symm
  | positive => exact congrArg some (compare_lt_iff_lt.2 (lt_positive hpos)).symm

theorem finite_compare_finite (s s' : Sign) {m m' : Nat} {e e' : Int} {hm : 0 < m} {hm' : 0 < m'}
    (h : Canonical m e) (h' : Canonical m' e') :
    UnpackedFloat.compare (.finite s m e hm) (.finite s' m' e' hm') =
      some (compare (s.apply (unitsOf m e)) (s'.apply (unitsOf m' e'))) := by
  have hpos := unitsOf_pos hm e
  have hpos' := unitsOf_pos hm' e'
  have hunits := h.compare_unitsOf h'
  cases s <;> cases s'
  · refine congrArg some ?_
    simp only [Sign.apply]
    rw [compare_neg, ← hunits]
  · exact congrArg some (compare_lt_iff_lt.2 (negative_lt_positive hpos hpos')).symm
  · exact congrArg some (compare_gt_iff_gt.2 (negative_lt_positive hpos' hpos)).symm
  · exact congrArg some hunits

theorem compare_of_rank? (hu : Storable u) (hv : Storable v) (ha : unpackedRank? u = some a)
    (hb : unpackedRank? v = some b) : u.compare v = some (compare a b) := by
  cases u with
  | notANumber => cases ha
  | infinity s =>
      cases ha
      exact infinity_compare s hv hb
  | zero s =>
      cases v with
      | notANumber => cases hb
      | infinity s' =>
          cases hb
          exact compare_infinity s' hu ha nofun
      | zero s' =>
          cases ha
          cases hb
          exact congrArg some (compare_eq_iff_eq.2 rfl).symm
      | finite s' m e hm =>
          cases ha
          cases hb
          exact zero_compare_finite s' s hm
  | finite s m e hm =>
      cases v with
      | notANumber => cases hb
      | infinity s' =>
          cases hb
          exact compare_infinity s' hu ha nofun
      | zero s' =>
          cases ha
          cases hb
          exact finite_compare_zero s s' hm
      | finite s' m' e' hm' =>
          cases ha
          cases hb
          exact finite_compare_finite s s' hu.1 hv.1

/-- Nothing is compared with a NaN. -/
theorem compare_eq_none (h : unpackedRank? u = none ∨ unpackedRank? v = none) :
    u.compare v = none := by
  rcases h with h | h
  · cases u with
    | notANumber => cases v <;> rfl
    | _ => cases h
  · cases v with
    | notANumber => cases u <;> rfl
    | _ => cases h

end Compare

/-! Ranks of doubles -/

/-- The place of a double among all of them. -/
def rank? (x : Float) : Option Int := unpackedRank? x.toModel.unpack

theorem le_iff (x y : Float) : x ≤ y ↔ x.toModel.unpack.le y.toModel.unpack = true := by
  change decide (x.toModel ≤ y.toModel) = true ↔ _
  rw [decide_eq_true_iff]
  rfl

section Order

variable {x y : Float} {a b : Int}

theorem lt_iff_of_rank? (hx : rank? x = some a) (hy : rank? y = some b) : x < y ↔ a < b := by
  have hcompare := compare_of_rank? (storable_unpack x.toModel) (storable_unpack y.toModel) hx hy
  rw [lt_iff, UnpackedFloat.lt, hcompare, ← compare_lt_iff_lt (a := a), beq_iff_eq,
    Option.some_inj]

theorem le_iff_of_rank? (hx : rank? x = some a) (hy : rank? y = some b) : x ≤ y ↔ a ≤ b := by
  have hcompare := compare_of_rank? (storable_unpack x.toModel) (storable_unpack y.toModel) hx hy
  rw [le_iff, UnpackedFloat.le, hcompare]
  exact Std.isLE_compare

theorem isNaN_iff : x.isNaN = true ↔ rank? x = none := by
  change x.toModel.unpack.isNaN = true ↔ unpackedRank? x.toModel.unpack = none
  cases x.toModel.unpack with
  | notANumber => exact iff_of_true rfl rfl
  | _ => exact iff_of_false nofun nofun

theorem exists_rank? (hx : x.isNaN = false) : ∃ a, rank? x = some a :=
  Option.ne_none_iff_exists'.1 (mt isNaN_iff.2 (ne_true_of_eq_false hx))

theorem not_lt_of_isNaN (h : x.isNaN = true ∨ y.isNaN = true) : ¬x < y := by
  rw [isNaN_iff, isNaN_iff] at h
  rw [lt_iff, UnpackedFloat.lt, compare_eq_none h]
  exact Bool.false_ne_true

theorem not_le_of_isNaN (h : x.isNaN = true ∨ y.isNaN = true) : ¬x ≤ y := by
  rw [isNaN_iff, isNaN_iff] at h
  rw [le_iff, UnpackedFloat.le, compare_eq_none h]
  exact Bool.false_ne_true

theorem le_iff_exists_rank? :
    x ≤ y ↔ ∃ a b, rank? x = some a ∧ rank? y = some b ∧ a ≤ b := by
  constructor
  · intro h
    by_cases hnan : x.isNaN = true ∨ y.isNaN = true
    · exact absurd h (not_le_of_isNaN hnan)
    · obtain ⟨hx, hy⟩ := not_or.1 hnan
      obtain ⟨a, ha⟩ := exists_rank? (eq_false_of_ne_true hx)
      obtain ⟨b, hb⟩ := exists_rank? (eq_false_of_ne_true hy)
      exact ⟨a, b, ha, hb, (le_iff_of_rank? ha hb).1 h⟩
  · rintro ⟨a, b, ha, hb, h⟩
    exact (le_iff_of_rank? ha hb).2 h

theorem rank?_of_units? (hx : units? x = some a) : rank? x = some a := by
  rw [units?_eq] at hx
  rw [rank?]
  rcases zero_or_finite hx with ⟨s, hu, rfl⟩ | ⟨s, m, e, hm, hu, rfl⟩ <;> rw [hu, unpackedRank?]

theorem units?_of_rank? (hx : rank? x = some a) (h : a.natAbs < limit) : units? x = some a := by
  rw [units?_eq]
  rw [rank?] at hx
  cases hu : x.toModel.unpack with
  | infinity s =>
      rw [hu] at hx
      cases hx
      rw [natAbs_apply] at h
      exact absurd h (Nat.lt_irrefl _)
  | _ =>
      rw [hu] at hx
      exact hx

end Order

end Double

end FlightCurve

import FlightCurve.Curve.Trajectory
import FlightCurve.Proofs.Comparison
import FlightCurve.Proofs.EuclideanDivision.Rounded

/-!
How far a flight has come. The elapsed time is divided by the flight time and the quotient is kept
between 0 and 1, while a flight is finished once the elapsed time reaches the flight time. The two
agree: a smaller double divided by a greater one is never rounded up to 1, whatever their size.
-/

namespace FlightCurve

namespace Double

open Float.Model Float.Model.UnpackedFloat

/-! Ratios about one -/

/-- A number of 53 bits is away from a greater one by a `2 ^ 53`-th of that at least. -/
theorem mul_le_of_isShort_of_lt {k n : Nat} (hk : IsShort k) (hn : IsShort n) (h : k < n) :
    k * 2 ^ 53 ≤ (2 ^ 53 - 1) * n := by
  obtain ⟨i, hi⟩ := hk.spacing_dvd (Nat.le_refl _)
  obtain ⟨j, hj⟩ := hn.spacing_dvd (log2_le_log2 h.le)
  have hbits : i < 2 ^ 53 :=
    Nat.lt_of_mul_lt_mul_left (a := spacing k) (hi ▸ lt_spacing_mul k)
  have hless : i < j := Nat.lt_of_mul_lt_mul_left (a := spacing k) (hi ▸ hj ▸ h)
  have hsteps : i * 2 ^ 53 ≤ (2 ^ 53 - 1) * j := by omega
  calc k * 2 ^ 53 = spacing k * (i * 2 ^ 53) := by rw [← Nat.mul_assoc, ← hi]
    _ ≤ spacing k * ((2 ^ 53 - 1) * j) := Nat.mul_le_mul_left _ hsteps
    _ = (2 ^ 53 - 1) * n := by rw [hj]; ring

/-- So a ratio below one is not rounded up to one, -/
theorem roundedRatio_lt_wholeUnits {k n : Nat} (hk : IsShort k) (hn : IsShort n) (h : k < n) :
    roundedRatio (k * wholeUnits) n < wholeUnits := by
  obtain ⟨unit, hunit⟩ : ∃ i, wholeUnits = 2 ^ 53 * 2 ^ i := by
    refine ⟨wholeExponent - 53, ?_⟩
    rw [wholeUnits, ← Nat.pow_add, wholeExponent_eq]
  have hshort : IsShort ((2 ^ 53 - 1) * 2 ^ unit) := ⟨_, unit, by decide, rfl⟩
  have hpower := Nat.two_pow_pos unit
  have hle : k * wholeUnits ≤ (2 ^ 53 - 1) * 2 ^ unit * n :=
    calc k * wholeUnits = k * 2 ^ 53 * 2 ^ unit := by rw [hunit, Nat.mul_assoc]
      _ ≤ (2 ^ 53 - 1) * n * 2 ^ unit := Nat.mul_le_mul_right _ (mul_le_of_isShort_of_lt hk hn h)
      _ = (2 ^ 53 - 1) * 2 ^ unit * n := by ring
  have hbelow := roundedRatio_le (Nat.zero_lt_of_lt h) hshort hle
  omega

/-- and one from one on is not rounded below it. -/
theorem wholeUnits_le_roundedRatio {k n : Nat} (hn : 0 < n) (h : n ≤ k) :
    wholeUnits ≤ roundedRatio (k * wholeUnits) n := by
  refine le_roundedRatio hn isShort_wholeUnits ?_
  rw [Nat.mul_comm]
  exact Nat.mul_le_mul_right _ h

/-! Signs of quotients -/

/-- The sign of a number, also of a zero and of an infinity. -/
def unpackedSign? : UnpackedFloat → Option Sign
  | .notANumber => none
  | .infinity s => some s
  | .zero s => some s
  | .finite s .. => some s

theorem sign?_ofFields (s : Sign) {field : Nat} (fraction : Nat) (h : field ≠ 2047) :
    unpackedSign? (ofFields s field fraction) = some s := by
  rw [ofFields, if_neg h]
  split
  · split <;> rfl
  · rfl

/-- A number keeps its sign when it is stored, even if it is too large. -/
theorem sign?_pack (u : UnpackedFloat) :
    unpackedSign? (Float.Model.pack u).unpack = unpackedSign? u := by
  cases u with
  | finite s m e hm =>
      change unpackedSign? (UnpackedFloat.unpack Format.binary64
        (UnpackedFloat.pack Format.binary64 _)) = some s
      rw [pack_finite]
      split
      · cases s <;> rfl
      · rename_i hfield
        split
        · rw [unpack_packComponents, BitVec.toNat_ofNat]
          exact sign?_ofFields s _ (by omega)
        · rw [unpack_packComponents]
          exact sign?_ofFields s _ (by decide)
  | notANumber => rfl
  | infinity s => exact congrArg unpackedSign? (unpack_pack (u := .infinity s) trivial)
  | zero s => exact congrArg unpackedSign? (unpack_pack (u := .zero s) trivial)

theorem sign?_roundWithAccuracy (s : Sign) (m : Nat) (e : Int) (acc : Accuracy) :
    unpackedSign? (roundWithAccuracy Format.binary64 s m e acc) = some s := by
  simp only [roundWithAccuracy]
  split <;> rfl

/-- A rounded result of known sign, an infinite one included. -/
theorem rank?_of_holds {x : Float} {s : Sign} {n : Nat} (h : Holds x s n)
    (hsign : unpackedSign? x.toModel.unpack = some s) :
    rank? x = some (s.apply (min n limit : Nat)) := by
  rcases Nat.lt_or_ge n limit with hlt | hle
  · rw [rank?_of_units? (h.finite hlt), Nat.min_eq_left hlt.le]
  · have hinf : x.toModel.unpack.isInf = true := h.infinite hle
    rw [Nat.min_eq_right hle, rank?]
    cases hu : x.toModel.unpack with
    | infinity s' =>
        rw [hu] at hsign
        cases hsign
        rfl
    | _ =>
        rw [hu] at hinf
        cases hinf

/-! Quotients by a positive double -/

theorem unpack_div (x y : Float) : (x / y).toModel.unpack = (Float.Model.pack
    (UnpackedFloat.div Format.binary64 x.toModel.unpack y.toModel.unpack)).unpack :=
  rfl

theorem div_positive (s : Sign) : s / Sign.positive = s := by
  cases s <;> rfl

theorem apply_eq_sign_mul (s : Sign) {k : Nat} (hk : 0 < k) (r : Nat) :
    s.apply r = (s.apply k).sign * r := by
  have hk' : (k : Int).sign = 1 := Int.sign_eq_one_of_pos (by omega)
  cases s <;> simp [Sign.apply, hk']

theorem unpack_positive {y : Float} {n : Nat} (hy : units? y = some n) (hn : 0 < n) :
    ∃ m e, ∃ hm : 0 < m, y.toModel.unpack = .finite .positive m e hm ∧ n = unitsOf m e := by
  rw [units?_eq] at hy
  rcases zero_or_finite hy with ⟨s, -, hzero⟩ | ⟨s, m, e, hm, hv, happly⟩
  · omega
  · have hpositive : Sign.positive.apply n = s.apply (unitsOf m e) := happly
    obtain ⟨rfl, rfl⟩ := apply_inj hn hpositive
    exact ⟨m, e, hm, hv, rfl⟩

section Quotient

variable {x y : Float} {n : Nat} (hy : units? y = some n) (hn : 0 < n)
include hy hn

theorem rank?_div {m : Int} (hx : units? x = some m) :
    rank? (x / y) =
      some (m.sign * (min (roundedRatio (m.natAbs * wholeUnits) n) limit : Nat)) := by
  have hstorable := storable_unpack x.toModel
  have hstorable' := storable_unpack y.toModel
  obtain ⟨m', e', hm', hv, rfl⟩ := unpack_positive hy hn
  rw [units?_eq] at hx
  rw [rank?, unpack_div, hv]
  rcases zero_or_finite hx with ⟨s, hu, rfl⟩ | ⟨s, m, e, hm, hu, rfl⟩
  · rw [hu, UnpackedFloat.div, Int.sign_zero, Int.zero_mul]
    exact congrArg unpackedRank? (unpack_pack (u := .zero _) trivial)
  · rw [hu] at hstorable
    rw [hv] at hstorable'
    have hholds := @holds_div s .positive m m' e e' hm hm' hstorable.1 hstorable'.1
    rw [div_positive] at hholds
    have hsign : unpackedSign? (Float.Model.pack (UnpackedFloat.div Format.binary64
        (.finite s m e hm) (.finite .positive m' e' hm'))).unpack = some s := by
      rw [sign?_pack, UnpackedFloat.div, div_positive]
      exact sign?_roundWithAccuracy ..
    rw [hu, natAbs_apply, ← apply_eq_sign_mul s (unitsOf_pos hm e)]
    exact rank?_of_holds hholds hsign

/-- An infinity stays the same one. -/
theorem infinity_div {s : Sign} (hx : x.toModel.unpack = .infinity s) :
    rank? (x / y) = some (s.apply limit) := by
  obtain ⟨m', e', hm', hv, rfl⟩ := unpack_positive hy hn
  rw [rank?, unpack_div, hx, hv, UnpackedFloat.div, div_positive]
  exact congrArg unpackedRank? (unpack_pack (u := .infinity s) trivial)

end Quotient

theorem isNaN_div {x y : Float} (hx : x.isNaN = true) : (x / y).isNaN = true := by
  change x.toModel.unpack.isNaN = true at hx
  change (x / y).toModel.unpack.isNaN = true
  rw [unpack_div]
  cases hu : x.toModel.unpack with
  | notANumber =>
      rw [UnpackedFloat.div]
      rfl
  | _ =>
      rw [hu] at hx
      cases hx

/-! Part of a whole -/

theorem rank?_zero : rank? 0 = some 0 := congrArg unpackedRank? unpack_zero

theorem rank?_one : rank? 1 = some (wholeUnits : Int) := rank?_of_units? units?_one

theorem natAbs_lt_limit_of_units? {x : Float} {a : Int} (hx : units? x = some a) :
    a.natAbs < limit :=
  (isShort_of_units? hx).2.trans_le (Nat.sub_le ..)

theorem wholeUnits_lt_limit : wholeUnits < limit :=
  natAbs_lt_limit_of_units? units?_one

theorem eq_one_of_rank? {x : Float} (hx : rank? x = some (wholeUnits : Int)) : x = 1 := by
  have hwhole := wholeUnits_pos
  exact eq_of_units? (units?_of_rank? hx wholeUnits_lt_limit) units?_one (by omega)

/-- A rank is a number of units, unless it is that of an infinity. -/
theorem units?_or_infinity {x : Float} {a : Int} (hx : rank? x = some a) :
    units? x = some a ∨ ∃ s, x.toModel.unpack = .infinity s ∧ a = s.apply limit := by
  rw [units?_eq]
  rw [rank?] at hx
  cases hu : x.toModel.unpack with
  | infinity s =>
      rw [hu] at hx
      cases hx
      exact .inr ⟨s, rfl, rfl⟩
  | _ =>
      rw [hu] at hx
      exact .inl hx

/-- The rank of the part that one rank is of another, between zero and one. -/
def partRank (a : Int) (n : Nat) : Nat :=
  if a ≤ 0 then 0
  else if n ≤ a then wholeUnits
  else roundedRatio (a.natAbs * wholeUnits) n

theorem roundedRatio_le_wholeUnits {k n : Nat} (hn : 0 < n) (h : k ≤ n) :
    roundedRatio (k * wholeUnits) n ≤ wholeUnits := by
  refine roundedRatio_le hn isShort_wholeUnits ?_
  rw [Nat.mul_comm]
  exact Nat.mul_le_mul_left _ h

theorem partRank_le {n : Nat} (a : Int) (hn : 0 < n) : partRank a n ≤ wholeUnits := by
  unfold partRank
  split
  · exact Nat.zero_le _
  · split
    · exact Nat.le_refl _
    · exact roundedRatio_le_wholeUnits hn (by omega)

theorem partRank_mono {n : Nat} {a b : Int} (hn : 0 < n) (h : a ≤ b) :
    partRank a n ≤ partRank b n := by
  by_cases hnone : a ≤ 0
  · rw [partRank, if_pos hnone]
    exact Nat.zero_le _
  · by_cases hwhole : n ≤ b
    · rw [partRank.eq_def b, if_neg (by omega), if_pos hwhole]
      exact partRank_le a hn
    · rw [partRank, partRank, if_neg hnone, if_neg (by omega), if_neg (by omega), if_neg hwhole]
      exact roundedRatio_mono hn (Nat.mul_le_mul_right _ (by omega))

section Part

variable {x y : Float} {a : Int} {n : Nat} (hx : rank? x = some a) (hy : units? y = some n)
  (hn : 0 < n)
include hx hy hn

/-- What is not yet the whole is less than it, also when it is rounded. -/
theorem partRank_eq_iff : partRank a n = wholeUnits ↔ n ≤ a := by
  have hwhole := wholeUnits_pos
  have hshort := isShort_of_units? hy
  by_cases hle : n ≤ a
  · rw [partRank, if_neg (by omega), if_pos hle]
    exact iff_of_true rfl hle
  · refine iff_of_false ?_ hle
    by_cases hnone : a ≤ 0
    · rw [partRank, if_pos hnone]
      exact hwhole.ne
    · rw [partRank, if_neg hnone, if_neg hle]
      have hlimit : n < limit := natAbs_lt_limit_of_units? hy
      have hunits := units?_of_rank? hx (by omega)
      have hless : a.natAbs < n := by omega
      exact (roundedRatio_lt_wholeUnits (isShort_of_units? hunits).1 hshort.1 hless).ne

/-- A quotient that is kept between zero and one. -/
theorem rank?_quotient : ∃ q, rank? (x / y) = some q ∧ max 0 (min q wholeUnits) = partRank a n := by
  have hwhole := wholeUnits_lt_limit
  have hlimit : n < limit := natAbs_lt_limit_of_units? hy
  rcases units?_or_infinity hx with hunits | ⟨s, hinf, rfl⟩
  · refine ⟨_, rank?_div hy hn hunits, ?_⟩
    by_cases hnone : a ≤ 0
    · have hsign : a.sign ≤ 0 := Int.sign_nonpos_iff.2 hnone
      have hproduct := Int.mul_nonpos_of_nonpos_of_nonneg hsign
        (Int.natCast_nonneg (min (roundedRatio (a.natAbs * wholeUnits) n) limit))
      rw [partRank, if_pos hnone]
      omega
    · rw [Int.sign_eq_one_of_pos (by omega), Int.one_mul, partRank, if_neg hnone]
      by_cases hle : n ≤ a
      · have habove := wholeUnits_le_roundedRatio hn (k := a.natAbs) (by omega)
        rw [if_pos hle]
        omega
      · have hbelow := roundedRatio_le_wholeUnits hn (k := a.natAbs) (by omega)
        rw [if_neg hle]
        omega
  · refine ⟨_, infinity_div hy hn hinf, ?_⟩
    cases s with
    | negative =>
        simp only [Sign.apply]
        rw [partRank, if_pos (by omega)]
        omega
    | positive =>
        simp only [Sign.apply]
        rw [partRank, if_neg (by omega), if_pos (by omega)]
        omega

end Part

end Double

namespace Trajectory

open Double

section Progress

variable (f : Trajectory) {elapsed : Float}

/-- The flight time is a positive number of units. -/
theorem units?_flightTime : ∃ n : Nat, 0 < n ∧ units? f.flightTime = some (n : Int) := by
  obtain ⟨hpos, hfinite⟩ := f.isDuration
  obtain ⟨n, hn⟩ := units?_of_isFinite hfinite
  have hunits : 0 < n := (pos_iff_of_units? hn).1 hpos
  exact ⟨n.toNat, by omega, by rw [hn, Int.toNat_of_nonneg hunits.le]⟩

/-- The quotient is kept between zero and one as its rank is. -/
theorem rank?_progress_of_quotient {q : Int} (hq : rank? (elapsed / f.flightTime) = some q) :
    rank? (f.progress elapsed) = some (max 0 (min q wholeUnits)) := by
  have hwhole := wholeUnits_pos
  have hneg := lt_iff_of_rank? hq rank?_zero
  simp only [progress]
  by_cases hlt : q < 0
  · have hnot : ¬(1 : Float) < 0 := by
      rw [lt_iff_of_rank? rank?_one rank?_zero]
      omega
    rw [if_pos (hneg.2 hlt), if_neg hnot, rank?_zero]
    refine congrArg some ?_
    omega
  · have habove := lt_iff_of_rank? rank?_one hq
    rw [if_neg (mt hneg.1 hlt)]
    by_cases hgt : (wholeUnits : Int) < q
    · rw [if_pos (habove.2 hgt), rank?_one]
      refine congrArg some ?_
      omega
    · rw [if_neg (mt habove.1 hgt), hq]
      refine congrArg some ?_
      omega

theorem rank?_progress {a : Int} {n : Nat} (hn : 0 < n) (hy : units? f.flightTime = some (n : Int))
    (hx : rank? elapsed = some a) : rank? (f.progress elapsed) = some (partRank a n : Int) := by
  obtain ⟨q, hq, hpart⟩ := rank?_quotient hx hy hn
  rw [rank?_progress_of_quotient f hq, hpart]

theorem isFinished_iff {a : Int} {n : Nat} (hy : units? f.flightTime = some (n : Int))
    (hx : rank? elapsed = some a) : f.isFinished elapsed = true ↔ n ≤ a := by
  rw [isFinished, decide_eq_true_iff]
  exact le_iff_of_rank? (rank?_of_units? hy) hx

theorem progress_within (hnum : elapsed.isNaN = false) :
    0 ≤ f.progress elapsed ∧ f.progress elapsed ≤ 1 := by
  obtain ⟨n, hn, hy⟩ := f.units?_flightTime
  obtain ⟨a, hx⟩ := exists_rank? hnum
  have hrank := f.rank?_progress hn hy hx
  rw [le_iff_of_rank? rank?_zero hrank, le_iff_of_rank? hrank rank?_one]
  exact ⟨Int.natCast_nonneg _, Int.ofNat_le.2 (partRank_le a hn)⟩

theorem progress_mono {earlier later : Float} (h : earlier ≤ later) :
    f.progress earlier ≤ f.progress later := by
  obtain ⟨n, hn, hy⟩ := f.units?_flightTime
  obtain ⟨a, b, hx, hx', hle⟩ := le_iff_exists_rank?.1 h
  rw [le_iff_of_rank? (f.rank?_progress hn hy hx) (f.rank?_progress hn hy hx')]
  exact Int.ofNat_le.2 (partRank_mono hn hle)

theorem progress_of_isNaN (hnan : elapsed.isNaN = true) : (f.progress elapsed).isNaN = true := by
  have hpart : (elapsed / f.flightTime).isNaN = true := isNaN_div hnan
  simp only [progress]
  rw [if_neg (not_lt_of_isNaN (.inl hpart)), if_neg (not_lt_of_isNaN (.inr hpart))]
  exact hpart

theorem isFinished_of_isNaN (hnan : elapsed.isNaN = true) : f.isFinished elapsed = false :=
  decide_eq_false (not_le_of_isNaN (.inr hnan))

theorem progress_eq_one_iff : f.progress elapsed = 1 ↔ f.isFinished elapsed = true := by
  by_cases hnan : elapsed.isNaN = true
  · have hprogress := f.progress_of_isNaN hnan
    rw [f.isFinished_of_isNaN hnan]
    refine iff_of_false (fun hone => ?_) nofun
    rw [hone, isNaN_iff, rank?_one] at hprogress
    cases hprogress
  · obtain ⟨n, hn, hy⟩ := f.units?_flightTime
    obtain ⟨a, hx⟩ := exists_rank? (eq_false_of_ne_true hnan)
    rw [f.isFinished_iff hy hx, ← partRank_eq_iff hx hy hn]
    have hrank := f.rank?_progress hn hy hx
    constructor
    · intro hone
      rw [hone, rank?_one, Option.some_inj] at hrank
      exact (Int.ofNat_inj.1 hrank).symm
    · intro hwhole
      rw [hwhole] at hrank
      exact eq_one_of_rank? hrank

/-- A flight stays where it has finished. -/
theorem positionAt_of_isFinished {earlier later : Float} (hfinished : f.isFinished earlier = true)
    (h : earlier ≤ later) : f.positionAt later = f.positionAt earlier := by
  have hlater : f.isFinished later = true := by
    obtain ⟨n, -, hy⟩ := f.units?_flightTime
    obtain ⟨a, b, hx, hx', hle⟩ := le_iff_exists_rank?.1 h
    rw [f.isFinished_iff hy hx] at hfinished
    rw [f.isFinished_iff hy hx']
    omega
  rw [positionAt, positionAt, f.progress_eq_one_iff.2 hfinished, f.progress_eq_one_iff.2 hlater]

end Progress

/-- How far a flight has come and whether it is finished say the same. -/
structure IsConsistent (f : Trajectory) : Prop where
  within : ∀ elapsed : Float, elapsed.isNaN = false →
    0 ≤ f.progress elapsed ∧ f.progress elapsed ≤ 1
  monotone : ∀ earlier later : Float, earlier ≤ later → f.progress earlier ≤ f.progress later
  complete_iff : ∀ elapsed : Float, f.progress elapsed = 1 ↔ f.isFinished elapsed = true
  atRest : ∀ earlier later : Float, f.isFinished earlier = true → earlier ≤ later →
    f.positionAt later = f.positionAt earlier
  ofNaN : ∀ elapsed : Float, elapsed.isNaN = true →
    (f.progress elapsed).isNaN = true ∧ f.isFinished elapsed = false

/-- A flight is made for every duration, and for nothing else. Its progress lies between 0 and 1,
never decreases, and is 1 exactly once the flight is finished, after which nothing moves. -/
theorem progress_and_isFinished_agree (curve : Curve) (origin : Point) (flightTime : Float) :
    (¬IsDuration flightTime ∧ new? curve origin flightTime = .error ⟨flightTime⟩) ∨
      (IsDuration flightTime ∧ ∃ f : Trajectory, new? curve origin flightTime = .ok f ∧
        f.curve = curve ∧ f.origin = origin ∧ f.flightTime = flightTime ∧ f.IsConsistent) := by
  by_cases h : IsDuration flightTime
  · refine .inr ⟨h, ⟨curve, origin, flightTime, h⟩, dif_pos h, rfl, rfl, rfl, ?_⟩
    exact {
      within := fun _ => progress_within _
      monotone := fun _ _ => progress_mono _
      complete_iff := fun _ => progress_eq_one_iff _
      atRest := fun _ _ => positionAt_of_isFinished _
      ofNaN := fun _ hnan => ⟨progress_of_isNaN _ hnan, isFinished_of_isNaN _ hnan⟩ }
  · exact .inl ⟨h, dif_neg h⟩

end Trajectory

end FlightCurve

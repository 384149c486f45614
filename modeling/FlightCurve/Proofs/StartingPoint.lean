import FlightCurve.Curve.Trajectory
import FlightCurve.Proofs.Doubles

/-!
Where a flight starts. The position at time zero is the one of the curve at zero, with what the
origin has on it added again. This is the origin if the curve starts at a number and the difference
is one that doubles have; otherwise it misses the origin by the error of two roundings, and it is no
number where the curve starts at none.
-/

namespace FlightCurve

open Double

/-- Where a coordinate stands that is moved from the start of a curve to an origin. -/
structure ReturnsTo (origin start position : Float) : Prop where
  /-- Nothing is added to a start that is no number. -/
  notFinite : start.isFinite = false → position.isNaN = true
  /-- A difference that is too large for a double is infinite. -/
  tooFar : ∀ a b, units? origin = some a → units? start = some b → overflow ≤ (a - b).natAbs →
    position.isInf = true
  /-- Otherwise the position is a number, unless the origin is as great as doubles are. -/
  finite : ∀ a b, units? origin = some a → units? start = some b → (a - b).natAbs < overflow →
    a.natAbs < greatest → position.isFinite = true
  /-- It misses the origin by a `2 ^ 52`-th of the difference at most, -/
  near : ∀ a b p, units? origin = some a → units? start = some b → units? position = some p →
    (p - a).natAbs * 2 ^ 52 ≤ (a - b).natAbs
  /-- and does not miss it where the difference is a double. -/
  exact : ∀ a b d, units? origin = some a → units? start = some b → units? d = some (a - b) →
    (position == origin) = true

theorem returnsTo_add_sub {origin : Float} (horigin : origin.isFinite = true) (start : Float) :
    ReturnsTo origin start (start + (origin - start)) where
  notFinite := isNaN_add_sub horigin
  tooFar := by
    intro a b ha hb hlarge
    exact isInf_add (isFinite_of_units? hb) ((isRounded_sub ha hb).infinite hlarge)
  finite := by
    intro a b ha hb hlt hgreatest
    have hsum := isRounded_add hb ((isRounded_sub ha hb).finite hlt)
    refine isFinite_of_units? (hsum.finite ?_)
    -- the sum misses the origin by half of the greatest step at most
    have herror := nearest_error_le_spacing (a - b)
    have hstep : spacing (a - b).natAbs ≤ 2 * 2 ^ lastExponent :=
      spacing_le (hlt.trans_le (Nat.sub_le _ _))
    unfold greatest at hgreatest
    unfold overflow at hlt ⊢
    generalize 2 ^ lastExponent = step at *
    omega
  near := by
    intro a b p ha hb hp
    have hlt : (a - b).natAbs < overflow := by
      by_contra hlarge
      have hinfinite := (isRounded_sub ha hb).infinite (Nat.le_of_not_lt hlarge)
      have hnone := units?_of_isInf (isInf_add (isFinite_of_units? hb) hinfinite)
      rw [hp] at hnone
      cases hnone
    obtain ⟨_, rfl⟩ := (isRounded_add hb ((isRounded_sub ha hb).finite hlt)).of_units? hp
    -- the sum is no nearer to any double than to its rounding, and the origin is one
    have hsum := nearest_nearest (n := b + nearest (a - b)) (isShort_of_units? ha).1
    have htwice : (nearest (b + nearest (a - b)) - a).natAbs ≤
        (nearest (a - b) - (a - b)).natAbs * 2 := by omega
    calc (nearest (b + nearest (a - b)) - a).natAbs * 2 ^ 52
        ≤ (nearest (a - b) - (a - b)).natAbs * 2 * 2 ^ 52 := Nat.mul_le_mul_right _ htwice
      _ = (nearest (a - b) - (a - b)).natAbs * 2 ^ 53 := by rw [Nat.mul_assoc, ← Nat.pow_succ']
      _ ≤ (a - b).natAbs := nearest_error_le _
  exact := by
    intro a b d ha hb hd
    obtain ⟨hshort, hlt⟩ := isShort_of_units? hd
    obtain ⟨horiginShort, horiginLt⟩ := isShort_of_units? ha
    have hoffset := (isRounded_sub ha hb).finite hlt
    rw [nearest_of_isShort hshort] at hoffset
    have hback : b + (a - b) = a := by omega
    have hposition := isRounded_add hb hoffset
    rw [hback] at hposition
    refine beq_of_units? ?_ ha
    rw [hposition.finite horiginLt, nearest_of_isShort horiginShort]

namespace Trajectory

open Float.Model

/-- At time zero nothing of the flight time has elapsed. -/
theorem progress_zero (f : Trajectory) : f.progress 0 = 0 := by
  have hpart : 0 / f.flightTime = 0 := by
    obtain ⟨hpositive, hfinite⟩ := f.isDuration
    rw [lt_iff, unpack_zero] at hpositive
    change f.flightTime.toModel.unpack.isFinite = true at hfinite
    change Float.ofModel (.pack (UnpackedFloat.div Format.binary64 (0 : Float).toModel.unpack
      f.flightTime.toModel.unpack)) = 0
    rw [unpack_zero]
    cases hu : f.flightTime.toModel.unpack with
    | notANumber =>
        rw [hu] at hfinite
        cases hfinite
    | infinity s =>
        rw [hu] at hfinite
        cases hfinite
    | zero s =>
        rw [hu] at hpositive
        cases hpositive
    | finite s m e hm =>
        cases s with
        | negative =>
            rw [hu] at hpositive
            cases hpositive
        | positive => exact zero_eq.symm
  have hzero : ¬(0 : Float) < 0 := by decide +kernel
  have hone : ¬(1 : Float) < 0 := by decide +kernel
  rw [progress, hpart]
  rw [if_neg hzero, if_neg hone]

/-- The start of a flight. The curve begins somewhere, perhaps at no number; each coordinate of the
flight is moved from there to the origin. -/
theorem positionAt_zero {curve : Curve} {origin : Point} {flightTime : Float} {f : Trajectory}
    (h : new? curve origin flightTime = .ok f) (hx : origin.x.isFinite = true)
    (hy : origin.y.isFinite = true) :
    ReturnsTo origin.x (curve.position 0).x (f.positionAt 0).x ∧
      ReturnsTo origin.y (curve.position 0).y (f.positionAt 0).y := by
  unfold new? at h
  split at h
  · cases h
    rw [positionAt, progress_zero]
    exact ⟨returnsTo_add_sub hx _, returnsTo_add_sub hy _⟩
  · cases h

theorem positionAt_zero_line : ∃ curve f, Sources.compile ⟨"t + 1", "2 - t", ""⟩ = .ok curve ∧
    new? curve ⟨3, -4⟩ 5 = .ok f ∧
    ReturnsTo 3 (curve.position 0).x (f.positionAt 0).x ∧
    ReturnsTo (-4) (curve.position 0).y (f.positionAt 0).y ∧
    ((f.positionAt 0).x == 3) = true ∧ ((f.positionAt 0).y == -4) = true := by
  have hstart : (Sources.compile ⟨"t + 1", "2 - t", ""⟩).toOption.map (·.position 0) =
      some ⟨1, 2⟩ := by
    decide +kernel
  cases hcurve : Sources.compile ⟨"t + 1", "2 - t", ""⟩ with
  | error e =>
      rw [hcurve] at hstart
      cases hstart
  | ok curve =>
      have hposition : curve.position 0 = ⟨1, 2⟩ := by
        rw [hcurve] at hstart
        exact Option.some.inj hstart
      have hduration : IsDuration 5 := by decide +kernel
      have hnew : new? curve ⟨3, -4⟩ 5 = .ok ⟨curve, ⟨3, -4⟩, 5, hduration⟩ := dif_pos hduration
      have hreturns := positionAt_zero hnew (by decide +kernel) (by decide +kernel)
      refine ⟨curve, _, rfl, hnew, hreturns.1, hreturns.2, ?_, ?_⟩
      · refine hreturns.1.exact (3 * 2 ^ 1074) (2 ^ 1074) 2 ?_ ?_ ?_
        · decide +kernel
        · rw [hposition]
          decide +kernel
        · decide +kernel
      · refine hreturns.2.exact (-(4 * 2 ^ 1074)) (2 * 2 ^ 1074) (-6) ?_ ?_ ?_
        · decide +kernel
        · rw [hposition]
          decide +kernel
        · decide +kernel

/-- A curve that begins at no number is not moved to the origin. -/
theorem positionAt_zero_pole : ∃ curve f, Sources.compile ⟨"1 / t", "t", ""⟩ = .ok curve ∧
    new? curve ⟨0, 0⟩ 5 = .ok f ∧ (0 : Float).isFinite = true ∧
    (f.positionAt 0).x.isNaN = true ∧ ((f.positionAt 0).x == 0) = false := by
  have hstart : (Sources.compile ⟨"1 / t", "t", ""⟩).toOption.map (·.position 0) =
      some ⟨1 / 0, 0⟩ := by
    decide +kernel
  cases hcurve : Sources.compile ⟨"1 / t", "t", ""⟩ with
  | error e =>
      rw [hcurve] at hstart
      cases hstart
  | ok curve =>
      have hposition : curve.position 0 = ⟨1 / 0, 0⟩ := by
        rw [hcurve] at hstart
        exact Option.some.inj hstart
      have hduration : IsDuration 5 := by decide +kernel
      have hx : ∀ f : Trajectory, f = ⟨curve, ⟨0, 0⟩, 5, hduration⟩ →
          (f.positionAt 0).x = 1 / 0 + (0 - 1 / 0) := by
        rintro f rfl
        rw [positionAt, progress_zero, shift, offset, hposition]
      refine ⟨curve, _, rfl, dif_pos hduration, by decide +kernel, ?_, ?_⟩
      · rw [hx _ rfl]
        decide +kernel
      · rw [hx _ rfl]
        decide +kernel

end Trajectory

end FlightCurve

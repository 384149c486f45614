import FlightCurve.Curve.Trajectory
import FlightCurve.Proofs.Exponents
import FlightCurve.Proofs.Traces

/-!
Samples of a curve. They are computed over an array of parameters and cut into rows, while a flight
evaluates the curve at one parameter at a time. The rows agree with the flight: each of them has the
position of the curve at its parameter, and moved like the start of the curve to the origin it is
where the flight is when its progress is that parameter.

A power over an array and a single power are two operations. They are told apart only where the
exponent varies, so this is what is asked of a row; of curves with common exponents nothing is
asked.
-/

namespace FlightCurve

/-- A power whose exponent does not stand for an operation of its own. -/
theorem Double.pow_eq {a b : Float} (hrecip : (b == -1) = false) (hzero : (b == 0) = false)
    (hsqrt : (b == 0.5) = false) (hone : (b == 1) = false) (hsquare : (b == 2) = false) :
    Double.pow a b = Float.pow a b := by
  rw [pow, hrecip, hzero, hsqrt, hone, hsquare]
  rfl

/-! Curves over arrays -/

namespace Curve

/-- At the parameter, the powers that the curve takes over an array are those of single values. -/
def IsUniformAt (c : Curve) (t : Float) : Prop :=
  (c.xWith .traced (.parameter t)).uniform ∧ (c.yWith .traced (.parameter t)).uniform

section Coordinates

variable {α β : Type} {R : α → β → Prop} {ops : Arithmetic α} {others : Arithmetic β}

theorem rel_get {x : Option α} {y : Option β} (h : Option.Rel R x y) (hx : x.isSome)
    (hy : y.isSome) : R (x.get hx) (y.get hy) := by
  cases h with
  | none => cases hx
  | some hab => exact hab

theorem xWith_related (c : Curve) (h : ops.Related R others) {t : α} {t' : β} (ht : R t t') :
    R (c.xWith ops t) (c.xWith others t') :=
  rel_get (Function.evaluateWith_related h ht c.assigns c.x) _ _

theorem yWith_related (c : Curve) (h : ops.Related R others) {t : α} {t' : β} (ht : R t t') :
    R (c.yWith ops t) (c.yWith others t') :=
  rel_get (Function.evaluateWith_related h ht c.assigns c.y) _ _

end Coordinates

/-- Traced at a parameter, a curve has its single values there. -/
theorem traced_eq (c : Curve) (t : Float) :
    (c.xWith .traced (.parameter t)).value = c.xWith .double t ∧
      (c.yWith .traced (.parameter t)).value = c.yWith .double t :=
  ⟨c.xWith_related Arithmetic.traced_related rfl, c.yWith_related Arithmetic.traced_related rfl⟩

theorem cells_axis {α : Type} (values : List α) :
    (Grid.axis (values.map .cell)).cells = values := by
  rw [Grid.cells, List.filterMap_map]
  exact List.filterMap_some

/-- The positions over an array, one for each parameter. -/
theorem cells_positions (c : Curve) {ts : List Float} {i : Nat} {t : Float} (ht : ts[i]? = some t) :
    (c.positions (.axis (ts.map .cell))).cells.length = ts.length ∧
      (c.IsUniformAt t → (c.positions (.axis (ts.map .cell))).cells[i]? = some (c.position t)) := by
  have hi : i < ts.length := (List.getElem?_eq_some_iff.1 ht).1
  have hparameter : Arithmetic.Tells ts.length i (.varying (.axis (ts.map .cell)))
      (.parameter t) := ⟨rfl, ts, rfl, rfl, fun _ => ht⟩
  have hrelated := Arithmetic.sampled_traced_related ts.length i
  obtain ⟨xs, hxs, hxlength, hx⟩ := (c.xWith_related hrelated hparameter).spread hi
  obtain ⟨ys, hys, hylength, hy⟩ := (c.yWith_related hrelated hparameter).spread hi
  obtain ⟨hxvalue, hyvalue⟩ := c.traced_eq t
  have hcells : (c.positions (.axis (ts.map .cell))).cells = List.zipWith Point.mk xs ys := by
    rw [positions, hxs, hys, Sampled.zip_cells, cells_axis]
  rw [hcells]
  constructor
  · rw [List.length_zipWith, hxlength, hylength, Nat.min_self]
  · rintro ⟨hxuniform, hyuniform⟩
    rw [List.getElem?_zipWith, hx hxuniform, hy hyuniform, hxvalue, hyvalue]
    rfl

/-! Rows -/

/-- The rows that are made of parameters. -/
def rows (c : Curve) (ts : List Float) : List Sample :=
  ts.zipWith Sample.mk (c.positions (.axis (ts.map .cell))).cells

theorem t_rows (c : Curve) (ts : List Float) : (c.rows ts).map Sample.t = ts := by
  have hlength : ts.length ≤ (c.positions (.axis (ts.map .cell))).cells.length := by
    cases ts with
    | nil => exact Nat.zero_le _
    | cons t ts =>
        have hfirst : (t :: ts)[0]? = some t := rfl
        exact Nat.le_of_eq (c.cells_positions hfirst).1.symm
  rw [rows, List.map_zipWith, ← List.map_uncurry_zip_eq_zipWith]
  exact List.map_fst_zip hlength

theorem position_rows (c : Curve) (ts : List Float) {row : Sample} (hrow : row ∈ c.rows ts)
    (huniform : c.IsUniformAt row.t) : row.position = c.position row.t := by
  obtain ⟨i, hi⟩ := List.getElem?_of_mem hrow
  rw [rows, List.getElem?_zipWith_eq_some] at hi
  obtain ⟨t, p, ht, hp, rfl⟩ := hi
  exact Option.some.inj (hp.symm.trans ((c.cells_positions ht).2 huniform))

theorem rows_eq {c : Curve} (h : c.hasCommonExponents) (ts : List Float) :
    c.rows ts = ts.map fun t => ⟨t, c.position t⟩ := by
  rw [rows, (positions_agree h _).1, Sampled.map_cells, cells_axis, List.zipWith_map_right,
    List.zipWith_self]

theorem sample_of_lt {count : Int} (c : Curve) (h : count < 1) :
    c.sample count = .error (.count count) := if_pos h

theorem sample_of_ofLength? {count : Int} (c : Curve) (h : 1 ≤ count) :
    c.sample count = match SamplingError.ofLength? count.toNat with
      | some e => .error e
      | none => .ok (c.rows (sampleParameters count.toNat)) := by
  rw [sample, if_neg (Int.not_lt.2 h)]
  rfl

end Curve

theorem length_sampleParameters (n : Nat) : (sampleParameters n).length = n := by
  rw [sampleParameters, List.length_map, List.length_range]

theorem SamplingError.ofLength?_ne_count {n : Nat} {e : SamplingError} (h : ofLength? n = some e)
    (value : Int) : e ≠ .count value := by
  rintro rfl
  unfold ofLength? at h
  split at h
  · cases h
  · split at h
    · cases h
    · split at h
      · cases h
      · split at h <;> cases h

/-- The point, moved by what moves `start` to `origin`. -/
def Point.moved (p start origin : Point) : Point :=
  ⟨p.x + (origin.x - start.x), p.y + (origin.y - start.y)⟩

namespace Trajectory

/-- Where a row has the position of the curve, the flight is at the moved position. -/
theorem positionAt_eq_moved (f : Trajectory) {row : Sample}
    (hrow : row.position = f.curve.position row.t) {elapsed : Float}
    (helapsed : f.progress elapsed = row.t) :
    f.positionAt elapsed = row.position.moved (f.curve.position 0) f.origin := by
  rw [positionAt, helapsed, ← hrow]
  rfl

/-- A number of samples below one is refused, and one for which there is no array. Otherwise there
is a row for each of the evenly spaced parameters, with the position of the curve there. Moved by
the origin less the position of the curve at zero it is where the flight is, whenever that has come
as far as the parameter of the row. -/
theorem sample_agrees_with_flight (f : Trajectory) (count : Int) :
    (count < 1 → f.curve.sample count = .error (.count count) ∧
      f.sample count = .error (.count count)) ∧
    (1 ≤ count → ∀ e, SamplingError.ofLength? count.toNat = some e →
      f.curve.sample count = .error e ∧ f.sample count = .error e ∧ ∀ value, e ≠ .count value) ∧
    (1 ≤ count → SamplingError.ofLength? count.toNat = none →
      ∃ rows flown, f.curve.sample count = .ok rows ∧ f.sample count = .ok flown ∧
        (rows.length : Int) = count ∧ rows.map Sample.t = sampleParameters count.toNat ∧
        flown = rows.map (fun row =>
          ⟨row.t, row.position.moved (f.curve.position 0) f.origin⟩) ∧
        (∀ row ∈ rows, f.curve.IsUniformAt row.t → row.position = f.curve.position row.t) ∧
        (∀ row ∈ flown, f.curve.IsUniformAt row.t →
          ∀ elapsed, f.progress elapsed = row.t → f.positionAt elapsed = row.position) ∧
        (f.curve.hasCommonExponents →
          rows = (sampleParameters count.toNat).map (fun t => ⟨t, f.curve.position t⟩) ∧
          ∀ row ∈ flown,
            ∀ elapsed, f.progress elapsed = row.t → f.positionAt elapsed = row.position)) ∧
    ∀ elapsed, f.positionAt elapsed =
      (f.curve.position (f.progress elapsed)).moved (f.curve.position 0) f.origin := by
  refine ⟨fun h => ?_, fun h e he => ?_, fun h hnone => ?_, fun _ => rfl⟩
  · have hcurve := f.curve.sample_of_lt h
    exact ⟨hcurve, by rw [sample, hcurve]; rfl⟩
  · have hcurve := f.curve.sample_of_ofLength? h
    rw [he] at hcurve
    exact ⟨hcurve, by rw [sample, hcurve]; rfl, SamplingError.ofLength?_ne_count he⟩
  · have hcurve := f.curve.sample_of_ofLength? h
    rw [hnone] at hcurve
    have hparameters := f.curve.t_rows (sampleParameters count.toNat)
    have hlength := congrArg List.length hparameters
    rw [List.length_map, length_sampleParameters] at hlength
    have hposition := fun row (hrow : row ∈ f.curve.rows (sampleParameters count.toNat)) =>
      f.curve.position_rows _ hrow
    refine ⟨_, _, hcurve, by rw [sample, hcurve]; rfl, by omega, hparameters, rfl, hposition,
      ?_, fun hcommon => ⟨Curve.rows_eq hcommon _, ?_⟩⟩
    · intro row hrow huniform elapsed helapsed
      obtain ⟨unmoved, hunmoved, rfl⟩ := List.mem_map.1 hrow
      exact f.positionAt_eq_moved (hposition unmoved hunmoved huniform) helapsed
    · intro row hrow elapsed helapsed
      obtain ⟨unmoved, hunmoved, rfl⟩ := List.mem_map.1 hrow
      rw [Curve.rows_eq hcommon] at hunmoved
      obtain ⟨t, -, rfl⟩ := List.mem_map.1 hunmoved
      exact f.positionAt_eq_moved rfl helapsed

/-- A flight with two powers, one of which has an exponent that varies. -/
def growth : Trajectory where
  curve :=
    { x := .power [.const 2, .sum [(.plus, .parameter), (.plus, .const 3)]]
      y := .power [.parameter, .const 2]
      assigns := []
      names := []
      sources := ⟨"2^(t + 3)", "t^2", ""⟩
      assigns_inOrder := rfl
      x_refsBelow := rfl
      y_refsBelow := rfl }
  origin := ⟨1, 2⟩
  flightTime := 5
  isDuration := by decide +kernel

theorem growth_isUniformAt_one : growth.curve.IsUniformAt 1 := by
  refine ⟨⟨trivial, ⟨⟨⟨trivial, trivial⟩, trivial⟩, trivial, nofun⟩, fun _ => ?_⟩,
    trivial, ⟨trivial, trivial, nofun⟩, nofun⟩
  exact (Double.pow_eq (by decide +kernel) (by decide +kernel) (by decide +kernel)
    (by decide +kernel) (by decide +kernel)).symm

/-- A flight with a power that has a common exponent. -/
def parabola : Trajectory where
  curve :=
    { x := .parameter
      y := .power [.parameter, .const 2]
      assigns := []
      names := []
      sources := ⟨"t", "t^2", ""⟩
      assigns_inOrder := rfl
      x_refsBelow := rfl
      y_refsBelow := rfl }
  origin := ⟨1, 2⟩
  flightTime := 5
  isDuration := by decide +kernel

/-- The last of two samples is where the flight ends. -/
theorem sample_agrees_with_flight_growth :
    (1 : Int) ≤ 2 ∧ SamplingError.ofLength? 2 = none ∧
    (growth.curve.IsUniformAt 1 ∧ growth.progress 5 = 1 ∧ ∃ flown, growth.sample 2 = .ok flown ∧
      ∃ row ∈ flown, row.t = 1 ∧ growth.positionAt 5 = row.position) ∧
    parabola.curve.hasCommonExponents = true ∧
      parabola.curve.sample 2 =
        .ok [⟨0, parabola.curve.position 0⟩, ⟨1, parabola.curve.position 1⟩] := by
  have hprogress : growth.progress 5 = 1 := by decide +kernel
  obtain ⟨rows, flown, -, hsample, -, hparameters, hmoved, -, hflight, -⟩ :=
    (sample_agrees_with_flight growth 2).2.2.1 (by decide) rfl
  have hlast : (1 : Float) ∈ rows.map Sample.t := by
    rw [hparameters]
    exact List.mem_map.2 ⟨1, by decide, rfl⟩
  obtain ⟨row, hrow, hone⟩ := List.mem_map.1 hlast
  have hflown : _ ∈ flown := hmoved ▸ List.mem_map_of_mem hrow
  obtain ⟨samples, _, hsamples, -, -, -, -, -, -, hcommon⟩ :=
    (sample_agrees_with_flight parabola 2).2.2.1 (by decide) rfl
  refine ⟨by decide, rfl, ⟨growth_isUniformAt_one, hprogress, flown, hsample, _, hflown, hone,
    hflight _ hflown (hone ▸ growth_isUniformAt_one) 5 (hprogress.trans hone.symm)⟩, rfl, ?_⟩
  rw [hsamples, (hcommon rfl).1]
  rfl

end Trajectory

end FlightCurve

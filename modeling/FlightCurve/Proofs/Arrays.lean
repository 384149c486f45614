import FlightCurve.Curve
import FlightCurve.Proofs.Related

/-!
Evaluation over arrays of parameters. Where a part of a function does not mention the parameter it
stays a single value, and single values and arrays meet in the operations above it. What every
intermediate value has in common is that, spread over the samples, it is the image of the samples
under some function; the operations on arrays do to the images what the operations on single values
do to the functions.

The main statement is that evaluation over an array has the shape of the array, and at each index
the value of a single evaluation there, when the operations act on all elements alike.
-/

namespace FlightCurve

namespace Grid

variable {α β γ δ : Type}

theorem mapSlices_eq (f : α → β) (slices : List (Grid α)) :
    mapSlices f slices = slices.map (map f) := by
  induction slices with
  | nil => rfl
  | cons slice rest ih => rw [mapSlices, ih, List.map_cons]

theorem map_axis (f : α → β) (slices : List (Grid α)) :
    (axis slices).map f = axis (slices.map (map f)) := by
  rw [map, mapSlices_eq]

theorem zipSlices_eq (f : α → β → γ) (slices : List (Grid α)) (others : List (Grid β)) :
    zipSlices f slices others = List.zipWith (zip f) slices others := by
  induction slices generalizing others with
  | nil => rfl
  | cons slice rest ih =>
      cases others with
      | nil => rfl
      | cons other others => rw [zipSlices, ih, List.zipWith_cons_cons]

theorem zip_axis (f : α → β → γ) (slices : List (Grid α)) (others : List (Grid β)) :
    zip f (axis slices) (axis others) = axis (List.zipWith (zip f) slices others) := by
  rw [zip, zipSlices_eq]

mutual

/-- What holds of cells, and of an axis if it holds of its slices, holds of all arrays. -/
theorem induction {P : Grid α → Prop} (cell : ∀ value, P (cell value))
    (axis : ∀ slices, (∀ slice ∈ slices, P slice) → P (axis slices)) (grid : Grid α) : P grid := by
  match grid with
  | .cell value => exact cell value
  | .axis slices => exact axis slices (inductionSlices cell axis slices)

theorem inductionSlices {P : Grid α → Prop} (cell : ∀ value, P (.cell value))
    (axis : ∀ slices, (∀ slice ∈ slices, P slice) → P (.axis slices)) (slices : List (Grid α)) :
    ∀ slice ∈ slices, P slice := by
  match slices with
  | [] => simp
  | slice :: rest =>
      exact List.forall_mem_cons.2
        ⟨induction cell axis slice, inductionSlices cell axis rest⟩

end

theorem map_map (f : α → β) (g : β → γ) (grid : Grid α) :
    (grid.map f).map g = grid.map fun a => g (f a) := by
  induction grid using Grid.induction with
  | cell value => rfl
  | axis slices ih =>
      rw [map_axis, map_axis, map_axis, List.map_map]
      exact congrArg axis (List.map_congr_left ih)

theorem map_id (grid : Grid α) : grid.map id = grid := by
  induction grid using Grid.induction with
  | cell value => rfl
  | axis slices ih =>
      rw [map_axis]
      exact congrArg axis ((List.map_congr_left ih).trans (List.map_id slices))

/-- Two images of one array are joined element by element. -/
theorem zip_map_map (k : β → γ → δ) (f : α → β) (g : α → γ) (grid : Grid α) :
    (grid.map f).zip k (grid.map g) = grid.map fun a => k (f a) (g a) := by
  induction grid using Grid.induction with
  | cell value => rfl
  | axis slices ih =>
      rw [map_axis, map_axis, map_axis, zip_axis, List.zipWith_map, List.zipWith_self]
      exact congrArg axis (List.map_congr_left ih)

theorem map_zip (k : α → β → γ) (f : γ → δ) (grid : Grid α) (other : Grid β) :
    (grid.zip k other).map f = grid.zip (fun a b => f (k a b)) other := by
  induction grid using Grid.induction generalizing other with
  | cell value =>
      cases other with
      | cell b => rfl
      | axis others => rfl
  | axis slices ih =>
      cases other with
      | cell b => rfl
      | axis others =>
          rw [zip_axis, zip_axis, map_axis, List.map_zipWith]
          refine congrArg axis ?_
          induction slices generalizing others with
          | nil => rfl
          | cons slice rest ihRest =>
              cases others with
              | nil => rfl
              | cons other others =>
                  rw [List.forall_mem_cons] at ih
                  rw [List.zipWith_cons_cons, List.zipWith_cons_cons, ih.1, ihRest ih.2]

/-! Shapes and elements -/

/-- The array has an axis of each length in turn, the first one outermost. An axis without slices
goes with any further ones. -/
def HasShape : List Nat → Grid α → Prop
  | [], .cell _ => True
  | n :: shape, .axis slices => slices.length = n ∧ ∀ slice ∈ slices, HasShape shape slice
  | _, _ => False

/-- The element at an index, which has one number for each axis. -/
def get? : List Nat → Grid α → Option α
  | [], .cell value => some value
  | i :: index, .axis slices => slices[i]?.bind (get? index)
  | _, _ => none

theorem hasShape_map (f : α → β) (shape : List Nat) (grid : Grid α) :
    HasShape shape (grid.map f) ↔ HasShape shape grid := by
  induction shape generalizing grid with
  | nil => cases grid <;> rfl
  | cons n shape ih =>
      cases grid with
      | cell value => rfl
      | axis slices =>
          rw [map_axis, HasShape, HasShape, List.length_map, List.forall_mem_map]
          simp only [ih]

theorem get?_map (f : α → β) (index : List Nat) (grid : Grid α) :
    get? index (grid.map f) = (get? index grid).map f := by
  induction index generalizing grid with
  | nil => cases grid <;> rfl
  | cons i index ih =>
      cases grid with
      | cell value => rfl
      | axis slices =>
          rw [map_axis, get?, get?, List.getElem?_map]
          cases slices[i]? with
          | none => rfl
          | some slice => exact ih slice

mutual

/-- An array of arrays as one array: the axes of the elements come after its own. -/
def join : Grid (Grid α) → Grid α
  | .cell grid => grid
  | .axis slices => .axis (joinSlices slices)

def joinSlices : List (Grid (Grid α)) → List (Grid α)
  | [] => []
  | slice :: rest => slice.join :: joinSlices rest

end

theorem join_axis (slices : List (Grid (Grid α))) : (axis slices).join = axis (slices.map join) := by
  have hslices : joinSlices slices = slices.map join := by
    induction slices with
    | nil => rfl
    | cons slice rest ih => rw [joinSlices, ih, List.map_cons]
  rw [join, hslices]

/-- Two values along an axis. -/
def pair (a b : α) : Grid α := .axis [.cell a, .cell b]

/-- Two arrays of one shape as one array with a last axis of length two. -/
def stack (grid other : Grid α) : Grid α := (grid.zip pair other).join

theorem hasShape_join_pair (f g : β → α) (shape : List Nat) (grid : Grid β) :
    HasShape (shape ++ [2]) (grid.map fun b => pair (f b) (g b)).join ↔ HasShape shape grid := by
  induction shape generalizing grid with
  | nil =>
      cases grid with
      | cell value => simp [map, join, pair, HasShape]
      | axis slices =>
          -- what stands along the last axis is no axis itself
          refine iff_of_false ?_ id
          rw [map_axis, join_axis]
          rintro ⟨hlength, hslices⟩
          obtain ⟨slice, hslice⟩ := List.exists_mem_of_length_pos (Nat.lt_of_sub_eq_succ hlength)
          obtain ⟨_, hgrid, rfl⟩ := List.mem_map.1 hslice
          obtain ⟨grid, _, rfl⟩ := List.mem_map.1 hgrid
          have hcell := hslices _ hslice
          cases grid with
          | cell value => exact hcell
          | axis more =>
              rw [map_axis, join_axis] at hcell
              exact hcell
  | cons n shape ih =>
      cases grid with
      | cell value =>
          refine iff_of_false ?_ id
          rintro ⟨_, hcells⟩
          have hcell := hcells (.cell (f value)) List.mem_cons_self
          cases shape <;> exact hcell
      | axis slices =>
          rw [map_axis, join_axis, List.cons_append, HasShape, HasShape, List.length_map,
            List.length_map, List.forall_mem_map, List.forall_mem_map]
          simp only [ih]

theorem get?_join_pair (f g : β → α) (grid : Grid β) {index : List Nat} {b : β}
    (h : get? index grid = some b) :
    get? (index ++ [0]) (grid.map fun b => pair (f b) (g b)).join = some (f b) ∧
      get? (index ++ [1]) (grid.map fun b => pair (f b) (g b)).join = some (g b) := by
  induction index generalizing grid with
  | nil =>
      cases grid with
      | cell value =>
          cases h
          exact ⟨rfl, rfl⟩
      | axis slices => cases h
  | cons i index ih =>
      cases grid with
      | cell value => cases h
      | axis slices =>
          obtain ⟨slice, hslice, hget⟩ := Option.bind_eq_some_iff.1 h
          rw [map_axis, join_axis, List.cons_append, List.cons_append, get?, get?,
            List.getElem?_map, List.getElem?_map, hslice]
          exact ih slice hget

end Grid

/-! Values over samples -/

namespace Sampled

variable {α β γ τ : Type} {ts : Grid τ}

/-- Spread over the samples, the value is the image of them under `g`. -/
def IsImage (ts : Grid τ) (value : Sampled α) (g : τ → α) : Prop := value.spread ts = ts.map g

theorem IsImage.map {value : Sampled α} {g : τ → α} (h : IsImage ts value g) (f : α → β) :
    IsImage ts (value.map f) fun t => f (g t) := by
  unfold IsImage at *
  rw [← Grid.map_map, ← h]
  cases value with
  | constant a => exact (Grid.map_map _ _ ts).symm
  | varying grid => rfl

/-- Single values and arrays are joined as the functions are of which they are the images. -/
theorem IsImage.zip {a : Sampled α} {b : Sampled β} {g : τ → α} {h : τ → β}
    (ha : IsImage ts a g) (hb : IsImage ts b h) (f : α → β → γ) :
    IsImage ts (Sampled.zip f a b) fun t => f (g t) (h t) := by
  unfold IsImage at *
  rw [← Grid.zip_map_map, ← ha, ← hb]
  cases a with
  | constant a =>
      cases b with
      | constant b => exact (Grid.zip_map_map _ _ _ ts).symm
      | varying grid =>
          change grid.map (f a) = (ts.map fun _ => a).zip f grid
          rw [show grid = ts.map h from hb, Grid.zip_map_map, Grid.map_map]
  | varying grid =>
      cases b with
      | constant b =>
          change grid.map (f · b) = grid.zip f (ts.map fun _ => b)
          rw [show grid = ts.map g from ha, Grid.zip_map_map, Grid.map_map]
      | varying other => rfl

theorem IsImage.select {condition : Sampled Bool} {a b : Sampled α} {c : τ → Bool} {g h : τ → α}
    (hcondition : IsImage ts condition c) (ha : IsImage ts a g) (hb : IsImage ts b h) :
    IsImage ts (Sampled.select condition a b) fun t => cond (c t) (g t) (h t) :=
  hcondition.zip (ha.zip hb Prod.mk) _

/-- Two values that are computed from one are joined as one computation. -/
theorem zip_map_map (k : β → γ → τ) (f : α → β) (g : α → γ) (value : Sampled α) :
    Sampled.zip k (value.map f) (value.map g) = value.map fun a => k (f a) (g a) := by
  cases value with
  | constant a => rfl
  | varying grid => exact congrArg varying (Grid.zip_map_map k f g grid)

theorem map_id (value : Sampled α) : value.map id = value := by
  cases value with
  | constant a => rfl
  | varying grid => exact congrArg varying (Grid.map_id grid)

/-- The sign that arrays compute, by a choice for each element, is that of the element. -/
theorem select_sign (x : Sampled Float) :
    Sampled.select (x.map Float.isNaN) x (x.map fun a => if Double.isNegative a then -1 else 1) =
      x.map UnaryFn.sign.apply := by
  have hpairs := zip_map_map Prod.mk id (fun a => if Double.isNegative a then (-1 : Float) else 1) x
  rw [map_id] at hpairs
  rw [select, hpairs, zip_map_map]
  refine congrArg x.map (funext fun a => ?_)
  exact Bool.cond_eq_ite ..

/-- The fractional part that arrays compute, by a difference, is that of each element. -/
theorem zip_fract (x : Sampled Float) :
    Sampled.zip (· - ·) x (x.map Double.trunc) = x.map UnaryFn.fract.apply := by
  have hzip := zip_map_map (· - ·) id Double.trunc x
  rwa [map_id] at hzip

end Sampled

/-! Operations on arrays -/

/-- On the elements of an array the operations are those on single values, whether or not an
exponent varies, and Euclidean division chooses between elements as it does between single values. -/
structure ElementArithmetic.Elementwise {α : Type} (ops : ElementArithmetic α) : Prop where
  pow : ops.variedPow = ops.pow
  quotient : ops.quotient = ops.division.quotient
  remainder : ops.remainder = ops.division.remainder
  select : ops.division.select = cond

/-- The operations on doubles, with the power of single values for all exponents. -/
def ElementArithmetic.uniformDouble : ElementArithmetic Float :=
  { Arithmetic.double with division := .double, variedPow := Double.pow }

theorem ElementArithmetic.uniformDouble_elementwise : uniformDouble.Elementwise :=
  ⟨rfl, rfl, rfl, rfl⟩

namespace Arithmetic

variable {α : Type}

/-- The operations on functions of the parameter, value by value. -/
def pointwise (ops : Arithmetic α) : Arithmetic (α → α) where
  zero _ := ops.zero
  one _ := ops.one
  literal x _ := ops.literal x
  add g h t := ops.add (g t) (h t)
  sub g h t := ops.sub (g t) (h t)
  mul g h t := ops.mul (g t) (h t)
  div g h t := ops.div (g t) (h t)
  quotient g h t := ops.quotient (g t) (h t)
  remainder g h t := ops.remainder (g t) (h t)
  pow g h t := ops.pow (g t) (h t)
  neg g t := ops.neg (g t)
  unary fn g t := ops.unary fn (g t)
  binary fn g h t := ops.binary fn (g t) (h t)

theorem pointwise_related (ops : Arithmetic α) (t : α) :
    ops.pointwise.Related (fun g a => g t = a) ops where
  zero := rfl
  one := rfl
  literal _ := rfl
  additive op := by
    rintro g h _ _ rfl rfl
    cases op <;> rfl
  multiplicative op := by
    rintro g h _ _ rfl rfl
    cases op <;> rfl
  pow := by
    rintro g h _ _ rfl rfl
    rfl
  neg := by
    rintro g _ rfl
    rfl
  unary fn := by
    rintro g _ rfl
    rfl
  binary fn := by
    rintro g h _ _ rfl rfl
    rfl

variable {ops : ElementArithmetic α} {ts : Grid α} {a b : Sampled α} {g h : α → α}

/-- The quotient is made of operations on arrays, each of which keeps images. -/
theorem isImage_quotient (hops : ops.Elementwise) (ha : Sampled.IsImage ts a g)
    (hb : Sampled.IsImage ts b h) :
    Sampled.IsImage ts (ops.division.sampled.quotient a b) fun t => ops.quotient (g t) (h t) := by
  rw [hops.quotient]
  unfold Division.quotient
  rw [hops.select]
  have hq : Sampled.IsImage ts _ _ := (ha.zip hb ops.division.div).map ops.division.trunc
  have hone : Sampled.IsImage ts (.constant ops.division.one) fun _ => ops.division.one := rfl
  exact ((ha.zip hb ops.division.fmod).map ops.division.isNegative).select
    ((hb.map ops.division.isPositive).select (hq.zip hone ops.division.sub)
      (hq.zip hone ops.division.add)) hq

theorem isImage_remainder (hops : ops.Elementwise) (ha : Sampled.IsImage ts a g)
    (hb : Sampled.IsImage ts b h) :
    Sampled.IsImage ts (ops.division.sampled.remainder a b) fun t => ops.remainder (g t) (h t) := by
  rw [hops.remainder]
  unfold Division.remainder
  rw [hops.select]
  have hr : Sampled.IsImage ts _ _ := ha.zip hb ops.division.fmod
  exact (hr.map ops.division.isNegative).select
    (hr.zip (hb.map ops.division.abs) ops.division.add) hr

theorem sampled_related (hops : ops.Elementwise) (ts : Grid α) :
    (sampled ops).Related (Sampled.IsImage ts) ops.pointwise where
  zero := rfl
  one := rfl
  literal _ := rfl
  additive op := by
    intro a b g h ha hb
    cases op with
    | plus => exact ha.zip hb ops.add
    | minus => exact ha.zip hb ops.sub
  multiplicative op := by
    intro a b g h ha hb
    cases op with
    | times => exact ha.zip hb ops.mul
    | divide => exact ha.zip hb ops.div
    | floorDivide => exact isImage_quotient hops ha hb
    | modulo => exact isImage_remainder hops ha hb
  pow := by
    intro a b g h ha hb
    have hpow : Sampled.pow ops a b = Sampled.zip ops.pow a b := by
      rw [Sampled.pow, hops.pow, ite_self]
    change Sampled.IsImage ts (Sampled.pow ops a b) _
    rw [hpow]
    exact ha.zip hb ops.pow
  neg ha := ha.map ops.neg
  unary fn := fun ha => ha.map (ops.unary fn)
  binary fn := fun ha hb => ha.zip hb (ops.binary fn)

end Arithmetic

/-! Functions and curves over arrays -/

section Evaluation

variable {α : Type}

/-- The values of a function at an array of parameters, for any operations. -/
def Function.evaluateManyWith (ops : ElementArithmetic α) (assigns : List Function) (ts : Grid α)
    (f : Function) : Option (Grid α) :=
  (f.evaluateWith (.sampled ops) assigns (.varying ts)).map (·.spread ts)

theorem Function.evaluateMany_eq (assigns : List Function) (ts : Grid Float) (f : Function) :
    f.evaluateMany assigns ts = f.evaluateManyWith .double assigns ts := rfl

/-- The coordinates of a curve at an array of parameters along a last axis, for any operations. -/
def Curve.coordinates (ops : ElementArithmetic α) (c : Curve) (ts : Grid α) : Grid α :=
  ((c.xWith (.sampled ops) (.varying ts)).spread ts).stack
    ((c.yWith (.sampled ops) (.varying ts)).spread ts)

/-- The positions of a curve, taken as pairs along a last axis, are its coordinates. -/
theorem Curve.coordinates_double (c : Curve) (ts : Grid Float) :
    c.coordinates .double ts = ((c.positions ts).map fun p => .pair p.x p.y).join := by
  rw [Curve.positions, Grid.map_zip]
  rfl

/-- The values over an array are the image of the array under a function, which has the value of a
single evaluation everywhere. Where there is no value, there is none in a single evaluation. -/
theorem Function.evaluateManyWith_cases {ops : ElementArithmetic α} (hops : ops.Elementwise)
    (assigns : List Function) (ts : Grid α) (f : Function) :
    (f.evaluateManyWith ops assigns ts = none ∧
        ∀ t, f.evaluateWith ops.toArithmetic assigns t = none) ∨
      ∃ g : α → α, f.evaluateManyWith ops assigns ts = some (ts.map g) ∧
        ∀ t, f.evaluateWith ops.toArithmetic assigns t = some (g t) := by
  have hts : Sampled.IsImage ts (.varying ts) id := (Grid.map_id ts).symm
  have harray := evaluateWith_related (Arithmetic.sampled_related hops ts) hts assigns f
  have hsingle (t : α) : Option.Rel (fun g a => g t = a)
      (f.evaluateWith ops.pointwise assigns id) (f.evaluateWith ops.toArithmetic assigns t) :=
    evaluateWith_related (ops.pointwise_related t) rfl assigns f
  unfold evaluateManyWith
  cases hvalues : f.evaluateWith ops.pointwise assigns id with
  | none =>
      rw [hvalues] at harray hsingle
      refine .inl ⟨by rw [eq_none_of_rel_none harray]; rfl, fun t => ?_⟩
      exact eq_none_of_none_rel (hsingle t)
  | some g =>
      rw [hvalues] at harray hsingle
      obtain ⟨value, hvalue, himage⟩ := exists_of_rel_some harray
      refine .inr ⟨g, ?_, fun t => ?_⟩
      · rw [hvalue]
        exact congrArg some himage
      · obtain ⟨_, hone, rfl⟩ := exists_of_some_rel (hsingle t)
        exact hone

/-- There are values over an array exactly if there is one for each parameter; they have the shape of
the array, and stand at the indices of their parameters. -/
theorem Function.evaluateManyWith_agrees {ops : ElementArithmetic α} (hops : ops.Elementwise)
    (assigns : List Function) (f : Function) (ts : Grid α) :
    (∀ t, (f.evaluateManyWith ops assigns ts).isSome =
      (f.evaluateWith ops.toArithmetic assigns t).isSome) ∧
      ∀ values, f.evaluateManyWith ops assigns ts = some values →
        (∀ shape, values.HasShape shape ↔ ts.HasShape shape) ∧
        ∀ index, values.get? index =
          (ts.get? index).bind fun t => f.evaluateWith ops.toArithmetic assigns t := by
  rcases f.evaluateManyWith_cases hops assigns ts with ⟨hnone, hsingle⟩ | ⟨g, hsome, hsingle⟩
  · refine ⟨fun t => by rw [hnone, hsingle]; rfl, fun values hvalues => ?_⟩
    rw [hnone] at hvalues
    cases hvalues
  · refine ⟨fun t => by rw [hsome, hsingle]; rfl, fun values hvalues => ?_⟩
    rw [hsome] at hvalues
    cases hvalues
    refine ⟨fun shape => Grid.hasShape_map g shape ts, fun index => ?_⟩
    rw [Grid.get?_map, Option.map_eq_bind]
    exact Option.bind_congr fun t _ => (hsingle t).symm

theorem Function.spread_get {ops : ElementArithmetic α} (hops : ops.Elementwise)
    {assigns : List Function} (ts : Grid α) {f : Function}
    (hvalues : (f.evaluateWith (.sampled ops) assigns (.varying ts)).isSome)
    (hsingle : ∀ t, (f.evaluateWith ops.toArithmetic assigns t).isSome) :
    ((f.evaluateWith (.sampled ops) assigns (.varying ts)).get hvalues).spread ts =
      ts.map fun t => (f.evaluateWith ops.toArithmetic assigns t).get (hsingle t) := by
  obtain ⟨value, hvalue⟩ := Option.isSome_iff_exists.1 hvalues
  have hmany : f.evaluateManyWith ops assigns ts = some (value.spread ts) := by
    rw [evaluateManyWith, hvalue]
    rfl
  rcases f.evaluateManyWith_cases hops assigns ts with ⟨hnone, _⟩ | ⟨g, hsome, hg⟩
  · rw [hmany] at hnone
    cases hnone
  · rw [hmany] at hsome
    simp only [hvalue, hg, Option.get_some]
    exact Option.some.inj hsome

/-- The coordinates of a curve over an array are those at its elements, side by side. -/
theorem Curve.coordinates_eq {ops : ElementArithmetic α} (hops : ops.Elementwise) (c : Curve)
    (ts : Grid α) :
    c.coordinates ops ts =
      (ts.map fun t => .pair (c.xWith ops.toArithmetic t) (c.yWith ops.toArithmetic t)).join := by
  have hx : (c.xWith (.sampled ops) (.varying ts)).spread ts = ts.map (c.xWith ops.toArithmetic) :=
    Function.spread_get hops ts _ _
  have hy : (c.yWith (.sampled ops) (.varying ts)).spread ts = ts.map (c.yWith ops.toArithmetic) :=
    Function.spread_get hops ts _ _
  rw [coordinates, hx, hy, Grid.stack, Grid.zip_map_map]

/-- Evaluation over an array agrees with single evaluations, when the operations on arrays act on
all elements alike. There are values over an array exactly if there is one for each parameter; they
have the shape of the array, and stand at the indices of their parameters. The positions of a curve
have one axis more, the last, of length two, along which the two coordinates stand. The functions
that an array computes by several operations, sign and fractional part, act on its elements too. -/
theorem arrays_agree_with_single_values {ops : ElementArithmetic α} (hops : ops.Elementwise)
    (ts : Grid α) :
    (∀ (assigns : List Function) (f : Function),
      (∀ t, (f.evaluateManyWith ops assigns ts).isSome =
        (f.evaluateWith ops.toArithmetic assigns t).isSome) ∧
      ∀ values, f.evaluateManyWith ops assigns ts = some values →
        (∀ shape, values.HasShape shape ↔ ts.HasShape shape) ∧
        ∀ index, values.get? index =
          (ts.get? index).bind fun t => f.evaluateWith ops.toArithmetic assigns t) ∧
    (∀ c : Curve,
      (∀ shape, (c.coordinates ops ts).HasShape (shape ++ [2]) ↔ ts.HasShape shape) ∧
      ∀ index t, ts.get? index = some t →
        (c.coordinates ops ts).get? (index ++ [0]) = some (c.xWith ops.toArithmetic t) ∧
        (c.coordinates ops ts).get? (index ++ [1]) = some (c.yWith ops.toArithmetic t)) ∧
    ∀ x : Sampled Float,
      Sampled.select (x.map Float.isNaN) x
          (x.map fun a => if Double.isNegative a then -1 else 1) = x.map UnaryFn.sign.apply ∧
        Sampled.zip (· - ·) x (x.map Double.trunc) = x.map UnaryFn.fract.apply := by
  refine ⟨fun assigns f => Function.evaluateManyWith_agrees hops assigns f ts, fun c => ?_,
    fun x => ⟨x.select_sign, x.zip_fract⟩⟩
  rw [c.coordinates_eq hops]
  exact ⟨fun shape => Grid.hasShape_join_pair _ _ shape ts,
    fun index t ht => Grid.get?_join_pair _ _ ts ht⟩

/-- A remainder of a single value and an array with two rows of one element. -/
theorem arrays_agree_with_single_values_mixed :
    ElementArithmetic.uniformDouble.Elementwise ∧
      ∃ values, (Function.product [(.times, .ref 0), (.modulo, .parameter)]).evaluateManyWith
          .uniformDouble [.const 2] (.axis [.axis [.cell 0.5], .axis [.cell 1]]) = some values ∧
        values.HasShape [2, 1] ∧ values.get? [1, 0] =
          (Function.product [(.times, .ref 0), (.modulo, .parameter)]).evaluateWith
            ElementArithmetic.uniformDouble.toArithmetic [.const 2] 1 := by
  obtain ⟨hdefined, hvalues⟩ := (arrays_agree_with_single_values
    ElementArithmetic.uniformDouble_elementwise (.axis [.axis [.cell 0.5], .axis [.cell 1]])).1
    [.const 2] (.product [(.times, .ref 0), (.modulo, .parameter)])
  have hone := Function.evaluateWith_isSome ElementArithmetic.uniformDouble.toArithmetic 1
    (show Function.inOrder 0 [.const 2] = true from rfl)
    (show (Function.product [(.times, .ref 0), (.modulo, .parameter)]).refsBelow 1 = true from rfl)
  obtain ⟨values, hmany⟩ := Option.isSome_iff_exists.1 ((hdefined 1).trans hone)
  obtain ⟨hshape, hget⟩ := hvalues values hmany
  have hindex : Grid.get? [1, 0] (.axis [.axis [.cell 0.5], .axis [.cell (1 : Float)]]) = some 1 :=
    rfl
  refine ⟨ElementArithmetic.uniformDouble_elementwise, values, hmany,
    (hshape [2, 1]).2 (by simp [Grid.HasShape]), ?_⟩
  rw [hget, hindex, Option.bind_some]

end Evaluation

end FlightCurve

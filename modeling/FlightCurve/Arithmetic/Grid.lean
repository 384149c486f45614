import FlightCurve.Arithmetic

/-!
Arrays of any shape, and arithmetic on them. An operation acts on each element; a value that does
not vary over the array is used for every element. The power is the one operation for which it
matters whether its exponent varies.
-/

namespace FlightCurve

/-- An array: a single cell, or an axis of slices. -/
inductive Grid (α : Type)
  | cell (value : α)
  | axis (slices : List (Grid α))

namespace Grid

variable {α β γ : Type}

mutual

/-- Applies a function to each element. -/
def map (f : α → β) : Grid α → Grid β
  | .cell value => .cell (f value)
  | .axis slices => .axis (mapSlices f slices)

def mapSlices (f : α → β) : List (Grid α) → List (Grid β)
  | [] => []
  | slice :: rest => slice.map f :: mapSlices f rest

end

mutual

/-- Joins two arrays of one shape element by element. Where the shapes differ, the result stops. -/
def zip (f : α → β → γ) : Grid α → Grid β → Grid γ
  | .cell a, .cell b => .cell (f a b)
  | .axis slices, .axis others => .axis (zipSlices f slices others)
  | .cell _, .axis _ => .axis []
  | .axis _, .cell _ => .axis []

def zipSlices (f : α → β → γ) : List (Grid α) → List (Grid β) → List (Grid γ)
  | slice :: rest, other :: others => slice.zip f other :: zipSlices f rest others
  | [], _ => []
  | _ :: _, [] => []

end

end Grid

/-- A value over an array of samples: the same for all of them, or one for each. -/
inductive Sampled (α : Type)
  | constant (value : α)
  | varying (grid : Grid α)

namespace Sampled

variable {α β γ : Type}

def map (f : α → β) : Sampled α → Sampled β
  | .constant value => .constant (f value)
  | .varying grid => .varying (grid.map f)

def zip (f : α → β → γ) : Sampled α → Sampled β → Sampled γ
  | .constant a, .constant b => .constant (f a b)
  | .constant a, .varying grid => .varying (grid.map (f a))
  | .varying grid, .constant b => .varying (grid.map (f · b))
  | .varying grid, .varying other => .varying (grid.zip f other)

/-- The value of each sample, in the shape of `samples`. -/
def spread (samples : Grid β) : Sampled α → Grid α
  | .constant value => samples.map fun _ => value
  | .varying grid => grid

/-- Takes each element from the first value where the condition holds there, else from the
second. -/
def select (condition : Sampled Bool) (a b : Sampled α) : Sampled α :=
  zip (fun choose values => cond choose values.1 values.2) condition (zip Prod.mk a b)

/-- Whether each element has a value of its own: there is an axis, also where it has one element. -/
def isVaried : Sampled α → Bool
  | .varying (.axis _) => true
  | _ => false

/-- The power of each element, by the operation for a common exponent or for varied ones. -/
def pow (ops : ElementArithmetic α) (base exponent : Sampled α) : Sampled α :=
  zip (if exponent.isVaried then ops.variedPow else ops.pow) base exponent

end Sampled

/-- Euclidean division of arrays is made of operations on arrays. -/
def Division.sampled {α : Type} (ops : Division α Bool) : Division (Sampled α) (Sampled Bool) where
  one := .constant ops.one
  add := Sampled.zip ops.add
  sub := Sampled.zip ops.sub
  div := Sampled.zip ops.div
  fmod := Sampled.zip ops.fmod
  trunc := Sampled.map ops.trunc
  abs := Sampled.map ops.abs
  isNegative := Sampled.map ops.isNegative
  isPositive := Sampled.map ops.isPositive
  select := Sampled.select

/-- Arithmetic on arrays, from the operations on their elements. -/
def Arithmetic.sampled {α : Type} (ops : ElementArithmetic α) : Arithmetic (Sampled α) where
  zero := .constant ops.zero
  one := .constant ops.one
  literal x := .constant (ops.literal x)
  add := Sampled.zip ops.add
  sub := Sampled.zip ops.sub
  mul := Sampled.zip ops.mul
  div := Sampled.zip ops.div
  quotient := ops.division.sampled.quotient
  remainder := ops.division.sampled.remainder
  pow := Sampled.pow ops
  neg := Sampled.map ops.neg
  unary fn := Sampled.map (ops.unary fn)
  binary fn := Sampled.zip (ops.binary fn)

end FlightCurve

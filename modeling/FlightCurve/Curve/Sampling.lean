import FlightCurve.Curve

/-!
Evenly spaced samples of a curve. Their parameters make up an array, which has a limit: no array is
longer than what can be counted, addressed and stored.
-/

namespace FlightCurve

/-- A position on a curve, with its parameter. -/
structure Sample where
  t : Float
  position : Point
  deriving DecidableEq, Repr

/-- Why there are no samples: not even one is asked for, or no array is that long. -/
inductive SamplingError
  | count (value : Int)
  | uncountable
  | noLastElement
  | unaddressable
  | outOfMemory
  deriving DecidableEq, Repr

namespace SamplingError

def message : SamplingError → String
  | .count value => "count must be at least 1, got " ++ toString value
  | .uncountable => "Maximum allowed size exceeded"
  | .noLastElement => "index -1 is out of bounds for axis 0 with size 0"
  | .unaddressable =>
      "array is too big; `arr.size * arr.dtype.itemsize` is larger than the maximum possible size."
  | .outOfMemory => "Unable to allocate an array of samples"

/-- What is in the way of an array of `n` samples. The length of an array is computed as a double,
rounded to 53 bits: the bounds are the least numbers that are rounded to more than `2 ^ 63`, to
`2 ^ 63` and to `2 ^ 60`. Just `2 ^ 63` wraps around to a negative length, which leaves no last
element to be set; with `2 ^ 60` elements of eight bytes, the size does. -/
def ofLength? (n : Nat) : Option SamplingError :=
  if 0x8000000000000401 ≤ n then some .uncountable
  else if 0x7ffffffffffffe00 ≤ n then some .noLastElement
  else if 0xfffffffffffffc0 ≤ n then some .unaddressable
  else if 0x100000000 ≤ n then some .outOfMemory
  else none

theorem ofLength?_eq_none_iff {n : Nat} : ofLength? n = none ↔ n < 0x100000000 := by
  unfold ofLength?
  split
  · simp; omega
  · split
    · simp; omega
    · split
      · simp; omega
      · split <;> simp <;> omega

end SamplingError

/-- The parameter of the sample number `i` out of `n`, evenly spaced from 0 to 1. -/
def sampleParameter (n i : Nat) : Float :=
  if i = 0 then 0
  else if i + 1 = n then 1
  else i.toFloat * (1 / (n - 1).toFloat)

def sampleParameters (n : Nat) : List Float := (List.range n).map (sampleParameter n)

/-- The elements of an array with one axis. -/
def Grid.cells {α : Type} : Grid α → List α
  | .cell value => [value]
  | .axis slices => slices.filterMap fun
      | .cell value => some value
      | .axis _ => none

/-- Evenly spaced samples of a curve. -/
def Curve.sample (c : Curve) (count : Int) : Except SamplingError (List Sample) :=
  if count < 1 then .error (.count count)
  else
    match SamplingError.ofLength? count.toNat with
    | some e => .error e
    | none =>
        let ts := sampleParameters count.toNat
        .ok (ts.zipWith Sample.mk (c.positions (.axis (ts.map .cell))).cells)

end FlightCurve

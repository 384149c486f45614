import FlightCurve.Arithmetic
import FlightCurve.Number.Double

/-!
Arithmetic of doubles. No operation fails: a division by zero, an argument outside the domain and an
overflow give an infinity or a NaN.
-/

namespace FlightCurve

def Division.double : Division Float Bool where
  one := 1
  add := (· + ·)
  sub := (· - ·)
  div := (· / ·)
  fmod := Double.fmod
  trunc := Double.trunc
  abs := Float.abs
  isNegative x := x < 0
  isPositive x := 0 < x
  select := cond

/-- The double function of a name. -/
def UnaryFn.apply : UnaryFn → Float → Float
  | .sin => Float.sin
  | .cos => Float.cos
  | .tan => Float.tan
  | .asin => Float.asin
  | .acos => Float.acos
  | .atan => Float.atan
  | .sinh => Float.sinh
  | .cosh => Float.cosh
  | .tanh => Float.tanh
  | .asinh => Float.asinh
  | .acosh => Float.acosh
  | .atanh => Float.atanh
  | .ln => Float.log
  | .log2 => Float.log2
  | .log10 => Float.log10
  | .sqrt => Float.sqrt
  | .cbrt => Float.cbrt
  | .abs => Float.abs
  | .sign => Double.signum
  | .floor => Double.floor
  | .ceil => Double.ceil
  | .fract => Double.fract

/-- The double function of a name. -/
def BinaryFn.apply : BinaryFn → Float → Float → Float
  | .min => Double.minimum
  | .max => Double.maximum
  | .atan2 => Float.atan2

def Arithmetic.double : Arithmetic Float where
  zero := 0
  one := 1
  literal := id
  add := (· + ·)
  sub := (· - ·)
  mul := (· * ·)
  div := (· / ·)
  quotient := Division.double.quotient
  remainder := Division.double.remainder
  pow := Double.pow
  neg := Float.neg
  unary := UnaryFn.apply
  binary := BinaryFn.apply

/-- Among exponents of which each element has its own, none stands for an operation of its own. -/
def ElementArithmetic.double : ElementArithmetic Float :=
  { Arithmetic.double with division := .double, variedPow := Float.pow }

end FlightCurve

import FlightCurve.Token

/-!
The words of curve expressions: operators, functions and named constants, with the texts that name
them in a source.
-/

namespace FlightCurve

/-- The name of the curve parameter. -/
def parameterName : String := "t"

/-- The word that may introduce a list of assignments. -/
def whereKeyword : String := "where"

/-! Operators -/

/-- Operators of an additive chain. -/
inductive AddOp
  | plus
  | minus
  deriving DecidableEq, Repr

namespace AddOp

def text : AddOp → String
  | .plus => "+"
  | .minus => "-"

def ofKind? : Kind → Option AddOp
  | .plus => some .plus
  | .minus => some .minus
  | _ => none

def all : List AddOp := [.plus, .minus]

def ofText? (s : String) : Option AddOp := all.find? (·.text = s)

end AddOp

/-- Operators of a multiplicative chain. The last two are the quotient and the remainder of
Euclidean division. -/
inductive MulOp
  | times
  | divide
  | floorDivide
  | modulo
  deriving DecidableEq, Repr

namespace MulOp

def text : MulOp → String
  | .times => "*"
  | .divide => "/"
  | .floorDivide => "//"
  | .modulo => "%"

def ofKind? : Kind → Option MulOp
  | .star => some .times
  | .slash => some .divide
  | .doubleSlash => some .floorDivide
  | .percent => some .modulo
  | _ => none

def all : List MulOp := [.times, .divide, .floorDivide, .modulo]

def ofText? (s : String) : Option MulOp := all.find? (·.text = s)

end MulOp

/-! Functions -/

inductive UnaryFn
  | sin
  | cos
  | tan
  | asin
  | acos
  | atan
  | sinh
  | cosh
  | tanh
  | asinh
  | acosh
  | atanh
  | ln
  | log2
  | log10
  | sqrt
  | cbrt
  | abs
  | sign
  | floor
  | ceil
  | fract
  deriving DecidableEq, Repr

namespace UnaryFn

def name : UnaryFn → String
  | .sin => "sin"
  | .cos => "cos"
  | .tan => "tan"
  | .asin => "asin"
  | .acos => "acos"
  | .atan => "atan"
  | .sinh => "sinh"
  | .cosh => "cosh"
  | .tanh => "tanh"
  | .asinh => "asinh"
  | .acosh => "acosh"
  | .atanh => "atanh"
  | .ln => "ln"
  | .log2 => "log2"
  | .log10 => "log10"
  | .sqrt => "sqrt"
  | .cbrt => "cbrt"
  | .abs => "abs"
  | .sign => "sign"
  | .floor => "floor"
  | .ceil => "ceil"
  | .fract => "fract"

/-- All unary functions, in the order of the quick reference. -/
def all : List UnaryFn :=
  [.sin, .cos, .tan, .asin, .acos, .atan, .sinh, .cosh, .tanh, .asinh, .acosh, .atanh,
   .ln, .log2, .log10, .sqrt, .cbrt, .abs, .sign, .floor, .ceil, .fract]

def ofName? (s : String) : Option UnaryFn := all.find? (·.name = s)

end UnaryFn

inductive BinaryFn
  | min
  | max
  | atan2
  deriving DecidableEq, Repr

namespace BinaryFn

def name : BinaryFn → String
  | .min => "min"
  | .max => "max"
  | .atan2 => "atan2"

/-- All binary functions, in the order of the quick reference. -/
def all : List BinaryFn := [.min, .max, .atan2]

def ofName? (s : String) : Option BinaryFn := all.find? (·.name = s)

end BinaryFn

/-! Constants -/

/-- The named constants, in the order of the quick reference. -/
def constants : List (String × Float) :=
  [("tau", 6.283185307179586), ("pi", 3.141592653589793), ("e", 2.718281828459045)]

def constant? (name : String) : Option Float := constants.lookup name

theorem constant?_parameterName : constant? parameterName = none := rfl

end FlightCurve

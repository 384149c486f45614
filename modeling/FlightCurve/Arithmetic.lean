import FlightCurve.Vocabulary

/-!
The operations that functions are evaluated with. Evaluation is the same for every choice of them:
doubles, arrays of doubles, exact numbers.

Quotient and remainder of Euclidean division are made from a division that cuts off: the remainder
of that one has the sign of the dividend, and a negative one is moved up by one divisor.
-/

namespace FlightCurve

/-- What Euclidean division is made of. `β` holds the truth values: one for a single number, one for
each element of an array. -/
structure Division (α β : Type) where
  one : α
  add : α → α → α
  sub : α → α → α
  div : α → α → α
  fmod : α → α → α
  trunc : α → α
  abs : α → α
  isNegative : α → β
  isPositive : α → β
  select : β → α → α → α

namespace Division

variable {α β : Type} (ops : Division α β)

/-- The quotient of Euclidean division, from the one that is cut off. -/
def quotient (a b : α) : α :=
  let q := ops.trunc (ops.div a b)
  ops.select (ops.isNegative (ops.fmod a b))
    (ops.select (ops.isPositive b) (ops.sub q ops.one) (ops.add q ops.one)) q

/-- The remainder of Euclidean division, from the one with the sign of the dividend. -/
def remainder (a b : α) : α :=
  let r := ops.fmod a b
  ops.select (ops.isNegative r) (ops.add r (ops.abs b)) r

end Division

/-- The operations on values of a kind. Sums start from `zero`, products and powers from `one`. -/
structure Arithmetic (α : Type) where
  zero : α
  one : α
  literal : Float → α
  add : α → α → α
  sub : α → α → α
  mul : α → α → α
  div : α → α → α
  quotient : α → α → α
  remainder : α → α → α
  pow : α → α → α
  neg : α → α
  unary : UnaryFn → α → α
  binary : BinaryFn → α → α → α

namespace Arithmetic

variable {α : Type} (ops : Arithmetic α)

/-- The operation that an additive operator stands for. -/
def additive : AddOp → α → α → α
  | .plus => ops.add
  | .minus => ops.sub

/-- The operation that a multiplicative operator stands for. -/
def multiplicative : MulOp → α → α → α
  | .times => ops.mul
  | .divide => ops.div
  | .floorDivide => ops.quotient
  | .modulo => ops.remainder

end Arithmetic

/-- The operations on the elements of an array. A power has two of them: `pow` where one exponent is
common to all elements, and `variedPow` where each element has its own. -/
structure ElementArithmetic (α : Type) extends Arithmetic α where
  division : Division α Bool
  variedPow : α → α → α

end FlightCurve

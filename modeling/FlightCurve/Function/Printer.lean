import FlightCurve.Function
import FlightCurve.Number.Decimal

/-!
The text of a compiled expression: chains and calls in parentheses, assignments by their index.
-/

namespace FlightCurve.Function

mutual

def chars : Function → List Char
  | .parameter => parameterName.toList
  | .ref index => '$' :: Decimal.digits index
  | .const value => Decimal.chars value
  | .sum terms => '(' :: (termsChars terms ++ [')'])
  | .product factors => '(' :: (factorsChars factors ++ [')'])
  | .power bases => '(' :: (basesChars bases ++ [')'])
  | .neg operand => '-' :: operand.chars
  | .unary fn operand => fn.name.toList ++ '(' :: (operand.chars ++ [')'])
  | .binary fn first second =>
      fn.name.toList ++ '(' :: (first.chars ++ ',' :: ' ' :: (second.chars ++ [')']))

/-- The terms of a sum. The operator of the first one is not shown. -/
def termsChars : List (AddOp × Function) → List Char
  | [] => []
  | (_, term) :: rest => term.chars ++ laterTermsChars rest

def laterTermsChars : List (AddOp × Function) → List Char
  | [] => []
  | (op, term) :: rest => ' ' :: (op.text.toList ++ ' ' :: (term.chars ++ laterTermsChars rest))

/-- The factors of a product. The operator of the first one is not shown. -/
def factorsChars : List (MulOp × Function) → List Char
  | [] => []
  | (_, factor) :: rest => factor.chars ++ laterFactorsChars rest

def laterFactorsChars : List (MulOp × Function) → List Char
  | [] => []
  | (op, factor) :: rest =>
      ' ' :: (op.text.toList ++ ' ' :: (factor.chars ++ laterFactorsChars rest))

def basesChars : List Function → List Char
  | [] => []
  | base :: rest => base.chars ++ laterBasesChars rest

def laterBasesChars : List Function → List Char
  | [] => []
  | base :: rest => ' ' :: '^' :: ' ' :: (base.chars ++ laterBasesChars rest)

end

def text (f : Function) : String := String.ofList f.chars

end FlightCurve.Function

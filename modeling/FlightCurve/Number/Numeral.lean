import FlightCurve.Number.Decimal
import FlightCurve.Text.DecimalDigit
import FlightCurve.Token.Lexer

/-!
Numerals as people write them. In settings a number has a sign, decimal digits of any script, and
single underscores between digits; a real number may have a point and an exponent, or be one of the
words for infinity and NaN. A count has ASCII digits only, may have leading zeros, and zeros after a
point.
-/

namespace FlightCurve.Numeral

/-- Longest whole numeral that is read, in digits. -/
def maxDigits : Nat := 4300

/-- The characters without underscores, each of which must stand between two digits. -/
def joinDigits? (afterDigit : Bool) : List Char → Option (List Char)
  | [] => some []
  | '_' :: c :: rest =>
      if afterDigit ∧ c.isDigit then (joinDigits? true rest).map (c :: ·) else none
  | ['_'] => none
  | c :: rest => (joinDigits? c.isDigit rest).map (c :: ·)

/-- Whether there is a minus, and what follows the sign. -/
def splitSign : List Char → Bool × List Char
  | '-' :: cs => (true, cs)
  | '+' :: cs => (false, cs)
  | cs => (false, cs)

def negateIf (negative : Bool) (x : Float) : Float := if negative then -x else x

/-- The value of a word for a number that is not finite. -/
def word? (cs : List Char) : Option Float :=
  let word := String.ofList (cs.map Char.toLower)
  if word = "inf" ∨ word = "infinity" then some (1 / 0)
  else if word = "nan" then some (0 / 0)
  else none

/-- The value of a literal that takes up all characters. -/
def literal? (cs : List Char) : Option Float :=
  if 0 < cs.length ∧ Lexer.numberLength cs = cs.length then some (Decimal.readLiteral cs) else none

/-- The number that a numeral denotes. -/
def float? (cs : List Char) : Option Float := do
  let (negative, body) := splitSign (← joinDigits? false (cs.map Text.toAsciiDigit))
  let x ← (word? body).or (literal? body)
  some (negateIf negative x)

/-- The whole number that a numeral denotes, if it is not too long. -/
def int? (cs : List Char) : Option Int := do
  let (negative, body) := splitSign (← joinDigits? false (cs.map Text.toAsciiDigit))
  if body.isEmpty || !body.all Char.isDigit || maxDigits < body.length then none
  else some (if negative then -(Decimal.ofDigits body : Int) else Decimal.ofDigits body)

/-! Counts -/

/-- A count without leading zeros. Underscores among them are dropped with them. -/
def dropLeadingZeros (cs : List Char) : List Char :=
  if cs.head? = some '0' then cs.dropWhile fun c => c = '0' || c = '_' else cs

/-- The whole part of a count, if what follows a point is one zero or more. -/
def wholePart? (cs : List Char) : Option (List Char) :=
  match cs.dropWhile (· ≠ '.') with
  | [] => some cs
  | _ :: places =>
      if places.isEmpty || !places.all (· = '0') then none else some (cs.takeWhile (· ≠ '.'))

/-- The positive whole number that a count denotes, if it is not too long. -/
def count? (cs : List Char) : Option Nat := do
  let unsigned := if cs.head? = some '+' then cs.tail else cs
  let body ← joinDigits? false (← wholePart? (dropLeadingZeros unsigned))
  if body.isEmpty || !body.all Char.isDigit || maxDigits < body.length then none
  else some (Decimal.ofDigits body)

end FlightCurve.Numeral

import FlightCurve.Number.Double

/-!
Doubles and decimals. A decimal `digits · 10 ^ exponent` is read as the nearest double. A double is
written with the fewest digits that read back as it, or rounded to a fixed number of places.
-/

namespace FlightCurve.Decimal

/-- The double nearest to `m · 10 ^ e`. The first tests keep the powers small: beyond them the
number is above every double, or nearest to zero. -/
def toDouble (m : Nat) (e : Int) : Float :=
  if m = 0 then 0
  else if 400 < e then 1 / 0
  else if e < 0 ∧ m.log2 + 3 * e < -1080 then 0
  else Float.ofScientific m (e < 0) e.natAbs

def digitValue (c : Char) : Nat := c.toNat - '0'.toNat

/-- The number that a run of digits denotes. -/
def ofDigits (cs : List Char) : Nat :=
  cs.foldl (fun n c => 10 * n + digitValue c) 0

/-- The exponent that follows a mark `e`, with its optional sign. -/
def readExponent : List Char → Int
  | '-' :: cs => -(ofDigits cs : Int)
  | '+' :: cs => ofDigits cs
  | cs => ofDigits cs

/-- The value of a number literal: digits with an optional point among or around them, and an
optional exponent. -/
def readLiteral (cs : List Char) : Float :=
  let whole := cs.takeWhile Char.isDigit
  let (fraction, rest) :=
    match cs.dropWhile Char.isDigit with
    | '.' :: after => (after.takeWhile Char.isDigit, after.dropWhile Char.isDigit)
    | after => ([], after)
  toDouble (ofDigits (whole ++ fraction)) (readExponent (rest.drop 1) - fraction.length)

/-! Exact quotients of powers -/

/-- The power `10 ^ k`. -/
def tenPow (k : Nat) : Nat := Nat.pow 10 k

/-- A positive rational number. -/
structure Quotient where
  num : Nat
  den : Nat
  deriving Repr

/-- The number `m · 2 ^ e / 10 ^ k`. -/
def scaled (m : Nat) (e k : Int) : Quotient :=
  ⟨(m <<< e.toNat) * tenPow (-k).toNat, (1 <<< (-e).toNat) * tenPow k.toNat⟩

/-- The integer nearest to `num / den`, the even one of two. -/
def roundHalfEven (num den : Nat) : Nat :=
  let q := num / den
  if den < 2 * (num % den) ∨ (den = 2 * (num % den) ∧ q % 2 = 1) then q + 1 else q

/-- A bound on the powers of ten: `m · 2 ^ e < 10 ^ decimalBound m e` for positive `m`. -/
def decimalBound (m : Nat) (e : Int) : Int :=
  let size := m.log2 + 1 + e
  (if size < 0 then size * 301 / 1000 else size * 302 / 1000) + 1

/-! Fewest digits -/

/-- The numbers that are nearer to `m · 2 ^ e` than to any other double, between `low` and `high`
in units of `2 ^ (e - 2)`. The ends belong to them if `m` is even. -/
structure Interval where
  low : Nat
  high : Nat
  closed : Bool
  unit : Int

def roundingInterval (m : Nat) (e : Int) : Interval :=
  { low := if m = Double.leadingBit ∧ -1074 < e then 4 * m - 1 else 4 * m - 2
    high := 4 * m + 2
    closed := m % 2 = 0
    unit := e - 2 }

/-- Whether `d · 10 ^ k` lies in the interval. -/
def Interval.contains (i : Interval) (d : Nat) (k : Int) : Bool :=
  let low := scaled i.low i.unit k
  let high := scaled i.high i.unit k
  if i.closed then low.num ≤ d * low.den && d * high.den ≤ high.num
  else low.num < d * low.den && d * high.den < high.num

/-- The multiple of `10 ^ k` that lies in the rounding interval of `m · 2 ^ e` and is nearest to
it, if there is one. -/
def gridPoint? (m : Nat) (e k : Int) : Option Nat :=
  let value := scaled m e k
  let near := roundHalfEven value.num value.den
  let below := value.num / value.den
  let far := if near = below then below + 1 else below
  let interval := roundingInterval m e
  if 0 < near ∧ interval.contains near k then some near
  else if 0 < far ∧ interval.contains far k then some far
  else none

/-- The point on the coarsest decimal grid that meets the rounding interval, among the grids
`10 ^ k`, `10 ^ (k - 1)`, … -/
def coarsest (m : Nat) (e : Int) : Nat → Int → Nat × Int
  | 0, k => let value := scaled m e k; (roundHalfEven value.num value.den, k)
  | grids + 1, k =>
      match gridPoint? m e k with
      | some d => (d, k)
      | none => coarsest m e grids (k - 1)

/-- The fewest digits that read back as `m · 2 ^ e`, for positive `m`: `(d, k)` for `d · 10 ^ k`.
Seventeen digits always do. -/
def fewestDigits (m : Nat) (e : Int) : Nat × Int :=
  coarsest m e 20 (decimalBound m e)

/-! Texts -/

def zeros (n : Nat) : List Char := List.replicate n '0'

def digits (n : Nat) : List Char := (toString n).toList

def dropTrailingZeros (cs : List Char) : List Char :=
  (cs.reverse.dropWhile (· = '0')).reverse

/-- The digits `cs` with a point before the place `point`, and at least one digit on either side. -/
def positional (cs : List Char) (point : Int) : List Char :=
  if point ≤ 0 then '0' :: '.' :: (zeros (-point).toNat ++ cs)
  else if cs.length ≤ point.toNat then cs ++ zeros (point.toNat - cs.length) ++ ['.', '0']
  else cs.take point.toNat ++ '.' :: cs.drop point.toNat

/-- An exponent with its sign and at least two digits. -/
def exponentText (e : Int) : List Char :=
  let ds := digits e.natAbs
  (if e < 0 then '-' else '+') :: (zeros (2 - ds.length) ++ ds)

/-- The digits `cs` with a point after the first of them, if others follow, and an exponent. -/
def scientific (cs : List Char) (exponent : Int) : List Char :=
  cs.take 1 ++ (if 1 < cs.length then '.' :: cs.drop 1 else []) ++ 'e' :: exponentText exponent

/-- The text of `m · 2 ^ e` in the fewest digits: positional where the leading digit has a weight
from `10 ^ -4` to `10 ^ 15`. -/
def shortestChars (m : Nat) (e : Int) : List Char :=
  if m = 0 then ['0', '.', '0']
  else
    let (d, k) := fewestDigits m e
    let point := (digits d).length + k
    let cs := dropTrailingZeros (digits d)
    if -4 < point ∧ point ≤ 16 then positional cs point else scientific cs (point - 1)

def signChars (negative : Bool) : List Char := if negative then ['-'] else []

/-- The text of a double in the fewest digits that read back as it. -/
def chars (x : Float) : List Char :=
  match Double.decode x with
  | .nan => ['n', 'a', 'n']
  | .infinite negative => signChars negative ++ ['i', 'n', 'f']
  | .finite negative m e => signChars negative ++ shortestChars m e

def shortest (x : Float) : String := String.ofList (chars x)

/-- The digits of `n`, of which the last `places` stand after a point; no point for no places. -/
def fixedChars (n places : Nat) : List Char :=
  let ds := digits n
  let padded := zeros (places + 1 - ds.length) ++ ds
  let whole := padded.length - places
  padded.take whole ++ (if places = 0 then [] else '.' :: padded.drop whole)

/-- The text of a double with a fixed number of places, a half going to the even neighbour. -/
def fixed (places : Nat) (x : Float) : String :=
  match Double.decode x with
  | .nan => "nan"
  | .infinite negative => String.ofList (signChars negative ++ ['i', 'n', 'f'])
  | .finite negative m e =>
      let value := scaled m e (-places)
      String.ofList (signChars negative ++ fixedChars (roundHalfEven value.num value.den) places)

end FlightCurve.Decimal

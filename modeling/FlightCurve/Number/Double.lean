/-!
Doubles as dyadic numbers: a finite double is `± m · 2 ^ e` with natural `m` and integer `e`. On
this reading the integer part and the remainder of a division are exact.
-/

namespace FlightCurve

/-- What a double stands for. -/
inductive Dyadic
  | nan
  | infinite (negative : Bool)
  | finite (negative : Bool) (mantissa : Nat) (exponent : Int)
  deriving DecidableEq, Repr

namespace Double

/-- The weight of the bit that leads a mantissa stored in full, `2 ^ 52`. -/
def leadingBit : Nat := 0x10000000000000

/-- The weight of the sign in a bit pattern, `2 ^ 63`. -/
def signBit : Nat := 0x8000000000000000

def isNegative (x : Float) : Bool := signBit ≤ x.toBits.toNat

/-- The fields of the bit pattern: the stored fraction, and an implicit leading bit unless the
exponent field is at its least. -/
def decode (x : Float) : Dyadic :=
  let field : Nat := x.toBits.toNat / leadingBit % 2048
  let fraction : Nat := x.toBits.toNat % leadingBit
  if field = 2047 then
    if fraction = 0 then .infinite (isNegative x) else .nan
  else if field = 0 then .finite (isNegative x) fraction (-1074)
  else .finite (isNegative x) (leadingBit + fraction) (field - 1075)

/-- The exponent at which `m · 2 ^ e` is stored: its leading bit has the weight `2 ^ 52`, or the
exponent is the least one. -/
def storedExponent (m : Nat) (e : Int) : Int := max (e + m.log2 - 52) (-1074)

/-- The double `± m · 2 ^ e`. Where the number is not a double, the bits below its last place are
dropped. -/
def encode (negative : Bool) (m : Nat) (e : Int) : Float :=
  let stored := storedExponent m e
  let mantissa := (m <<< (e - stored).toNat) >>> (stored - e).toNat
  let field := if mantissa < leadingBit then 0 else (stored + 1075).toNat
  let sign := if negative then signBit else 0
  Float.ofBits (UInt64.ofNat (sign + field * leadingBit + mantissa % leadingBit))

/-- The integer part, with the sign of `x` also where it is zero. -/
def trunc (x : Float) : Float :=
  match decode x with
  | .finite negative m e => if 0 ≤ e then x else encode negative (m >>> (-e).toNat) 0
  | _ => x

/-- The greatest integer that is not above `x`. -/
def floor (x : Float) : Float := if x < trunc x then trunc x - 1 else trunc x

/-- The least integer that is not below `x`. -/
def ceil (x : Float) : Float := -(floor (-x))

/-- What is left of `x` without its integer part. -/
def fract (x : Float) : Float := x - trunc x

/-- One with the sign of `x`; a zero has its sign too. -/
def signum (x : Float) : Float :=
  if x.isNaN then x else if isNegative x then -1 else 1

/-- The remainder of `a` on division by `b` with the quotient cut off at its integer part. It is
exact, and it has the sign of `a`. -/
def fmod (a b : Float) : Float :=
  match decode a, decode b with
  | .finite negative m e, .finite _ n f =>
      if n = 0 then 0 / 0
      else
        let least := min e f
        encode negative ((m <<< (e - least).toNat) % (n <<< (f - least).toNat)) least
  | .finite .., .infinite _ => a
  | _, _ => 0 / 0

/-- The smaller of two numbers, or the one that is a number. -/
def minimum (a b : Float) : Float := if a ≤ b ∨ b.isNaN then a else b

/-- The larger of two numbers, or the one that is a number. -/
def maximum (a b : Float) : Float := if b ≤ a ∨ b.isNaN then a else b

/-- A power. The exponents -1, 0, 1/2, 1 and 2 stand for operations of their own; so the power 1/2
is the square root, also of a negative zero and of the negative infinity. -/
def pow (a b : Float) : Float :=
  if b == -1 then 1 / a
  else if b == 0 then 1
  else if b == 0.5 then a.sqrt
  else if b == 1 then a
  else if b == 2 then a * a
  else Float.pow a b

end Double

end FlightCurve

import FlightCurve.Vocabulary

/-!
Compiled expressions. Names are gone: a function refers to the curve parameter, or to an assignment
by its index. A chain keeps an operator with each term, the first included; compilation tags the
first term of a sum with `+` and the first factor of a product with `*`.
-/

namespace FlightCurve

inductive Function
  | parameter
  | ref (index : Nat)
  | const (value : Float)
  | sum (terms : List (AddOp × Function))
  | product (factors : List (MulOp × Function))
  | power (bases : List Function)
  | neg (operand : Function)
  | unary (fn : UnaryFn) (operand : Function)
  | binary (fn : BinaryFn) (first second : Function)

namespace Function

/-! Checked construction: a reference has an index, and a chain has at least two members. -/

def ref? (index : Int) : Option Function :=
  if index < 0 then none else some (.ref index.toNat)

def sum? (terms : List (AddOp × Function)) : Option Function :=
  if terms.length < 2 then none else some (.sum terms)

def product? (factors : List (MulOp × Function)) : Option Function :=
  if factors.length < 2 then none else some (.product factors)

def power? (bases : List Function) : Option Function :=
  if bases.length < 2 then none else some (.power bases)

theorem ref?_natCast (index : Nat) : ref? index = some (.ref index) :=
  if_neg (Int.not_lt.2 (Int.natCast_nonneg index))

theorem sum?_of_two_le {terms : List (AddOp × Function)} (h : 2 ≤ terms.length) :
    sum? terms = some (.sum terms) :=
  if_neg (Nat.not_lt.2 h)

theorem product?_of_two_le {factors : List (MulOp × Function)} (h : 2 ≤ factors.length) :
    product? factors = some (.product factors) :=
  if_neg (Nat.not_lt.2 h)

theorem power?_of_two_le {bases : List Function} (h : 2 ≤ bases.length) :
    power? bases = some (.power bases) :=
  if_neg (Nat.not_lt.2 h)

mutual

/-- Whether every index that the function refers to is below `n`. -/
def refsBelow (n : Nat) : Function → Bool
  | .parameter => true
  | .ref index => index < n
  | .const _ => true
  | .sum terms => refsBelowTerms n terms
  | .product factors => refsBelowFactors n factors
  | .power bases => refsBelowAll n bases
  | .neg operand => operand.refsBelow n
  | .unary _ operand => operand.refsBelow n
  | .binary _ first second => first.refsBelow n && second.refsBelow n

def refsBelowTerms (n : Nat) : List (AddOp × Function) → Bool
  | [] => true
  | (_, term) :: rest => term.refsBelow n && refsBelowTerms n rest

def refsBelowFactors (n : Nat) : List (MulOp × Function) → Bool
  | [] => true
  | (_, factor) :: rest => factor.refsBelow n && refsBelowFactors n rest

def refsBelowAll (n : Nat) : List Function → Bool
  | [] => true
  | base :: rest => base.refsBelow n && refsBelowAll n rest

end

/-- Whether each function refers only to indices below its own, of which the first is `n`. -/
def inOrder : Nat → List Function → Bool
  | _, [] => true
  | n, f :: rest => f.refsBelow n && inOrder (n + 1) rest

end Function

end FlightCurve

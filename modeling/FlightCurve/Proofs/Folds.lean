import FlightCurve.Function.Evaluation
import FlightCurve.Function.OfTree

/-!
Chains of values. A sum adds or subtracts one term after the other, a product multiplies, divides or
takes a quotient or remainder factor by factor, and a power is a tower with its first base at the
foot. What each operator does is written out here, and a compiled chain is shown to do the same.
-/

namespace FlightCurve

namespace Arithmetic

variable {α : Type} (ops : Arithmetic α)

/-- The sum of terms with their operators, folded from a first one. -/
def sumFrom (first : α) : List (AddOp × α) → α
  | [] => first
  | (.plus, a) :: rest => sumFrom (ops.add first a) rest
  | (.minus, a) :: rest => sumFrom (ops.sub first a) rest

/-- The product of factors with their operators, folded from a first one. -/
def productFrom (first : α) : List (MulOp × α) → α
  | [] => first
  | (.times, a) :: rest => productFrom (ops.mul first a) rest
  | (.divide, a) :: rest => productFrom (ops.div first a) rest
  | (.floorDivide, a) :: rest => productFrom (ops.quotient first a) rest
  | (.modulo, a) :: rest => productFrom (ops.remainder first a) rest

/-- The power with a base and the exponents above it, each of which is the base of the next. -/
def tower : α → List α → α
  | base, [] => base
  | base, exponent :: rest => ops.pow base (tower exponent rest)

theorem sumFrom_cons (first : α) (op : AddOp) (a : α) (rest : List (AddOp × α)) :
    ops.sumFrom first ((op, a) :: rest) = ops.sumFrom (ops.additive op first a) rest := by
  cases op <;> rfl

theorem productFrom_cons (first : α) (op : MulOp) (a : α) (rest : List (MulOp × α)) :
    ops.productFrom first ((op, a) :: rest) =
      ops.productFrom (ops.multiplicative op first a) rest := by
  cases op <;> rfl

end Arithmetic

/-- The value of a chain whose operands have the given values. Sums and products are folded from the
left onto zero and one, with `+` or `*` for the first operand and for each of the others the
operator before it; powers are folded from the right onto one. One operand alone is not folded. -/
def Chain.fold {α : Type} (ops : Arithmetic α) : (c : Chain) → α → List (c.Op × α) → α
  | _, first, [] => first
  | .sum, first, rest => ops.sumFrom (ops.add ops.zero first) rest
  | .product, first, rest => ops.productFrom (ops.mul ops.one first) rest
  | .power, first, rest => ops.tower first (rest.map (·.2) ++ [ops.one])

/-- A sum that has a second term is folded from zero. -/
theorem Chain.fold_sum {α : Type} (ops : Arithmetic α) (first : α) {rest : List (AddOp × α)}
    (h : rest ≠ []) : fold ops .sum first rest = ops.sumFrom (ops.add ops.zero first) rest := by
  cases rest with
  | nil => exact absurd rfl h
  | cons term rest => rfl

namespace Function

variable {α : Type} (ops : Arithmetic α) (t : α) (values : List α)

/-- The values of the members of a chain, with their operators. -/
def memberValues {Op : Type} : List (Op × Function) → Option (List (Op × α))
  | [] => some []
  | (op, member) :: rest => do
      let a ← member.evaluate ops t values
      let as ← memberValues rest
      some ((op, a) :: as)

/-- A fold that evaluates one member after the other is the fold of their values. -/
theorem map_memberValues {Op : Type} {step : Op → α → α → α}
    {evaluated : α → List (Op × Function) → Option α} {folded : α → List (Op × α) → α}
    (nil : ∀ acc, evaluated acc [] = some (folded acc []))
    (cons : ∀ acc op member rest, evaluated acc ((op, member) :: rest) =
      member.evaluate ops t values >>= fun a => evaluated (step op acc a) rest)
    (folded_cons : ∀ acc op a rest, folded acc ((op, a) :: rest) = folded (step op acc a) rest)
    (acc : α) (members : List (Op × Function)) :
    evaluated acc members = (memberValues ops t values members).map (folded acc) := by
  induction members generalizing acc with
  | nil => exact nil acc
  | cons member rest ih =>
      obtain ⟨op, member⟩ := member
      rw [cons, memberValues]
      cases member.evaluate ops t values with
      | none => rfl
      | some a =>
          simp only [Option.bind_eq_bind, Option.bind_some, ih]
          cases memberValues ops t values rest with
          | none => rfl
          | some as => exact congrArg some (folded_cons acc op a as).symm

/-- The terms are summed up in their order. -/
theorem evaluateTerms_eq (acc : α) (terms : List (AddOp × Function)) :
    evaluateTerms ops t values acc terms =
      (memberValues ops t values terms).map (ops.sumFrom acc) :=
  map_memberValues ops t values (fun _ => rfl) (fun _ _ _ _ => rfl) ops.sumFrom_cons acc terms

/-- The factors are multiplied and divided in their order. -/
theorem evaluateFactors_eq (acc : α) (factors : List (MulOp × Function)) :
    evaluateFactors ops t values acc factors =
      (memberValues ops t values factors).map (ops.productFrom acc) :=
  map_memberValues ops t values (fun _ => rfl) (fun _ _ _ _ => rfl) ops.productFrom_cons acc factors

variable {ops t values}

/-- The last base has the exponent one. -/
theorem evaluateBases_eq {Op : Type} {first : Function} {a : α}
    (hfirst : first.evaluate ops t values = some a) {rest : List (Op × Function)}
    {as : List (Op × α)} (hrest : memberValues ops t values rest = some as) :
    evaluateBases ops t values (first :: rest.map (·.2)) =
      some (ops.tower a (as.map (·.2) ++ [ops.one])) := by
  induction rest generalizing first a as with
  | nil =>
      cases hrest
      rw [List.map_nil, evaluateBases, evaluateBases, hfirst]
      rfl
  | cons base rest ih =>
      obtain ⟨op, base⟩ := base
      obtain ⟨b, hb, hrest⟩ := Option.bind_eq_some_iff.1 hrest
      obtain ⟨bs, hbs, hrest⟩ := Option.bind_eq_some_iff.1 hrest
      cases hrest
      rw [evaluateBases, List.map_cons, ih hb hbs, hfirst]
      rfl

/-- Tagging the first member of a chain, and leaving a single member as it is, keeps the value. -/
theorem evaluate_ofChain (c : Chain) {first : Function} {a : α} {members : List (c.Op × Function)}
    {as : List (c.Op × α)} (hfirst : first.evaluate ops t values = some a)
    (hmembers : memberValues ops t values members = some as) :
    (ofChain c first members).evaluate ops t values = some (c.fold ops a as) := by
  cases members with
  | nil =>
      cases hmembers
      cases c <;> exact hfirst
  | cons member rest =>
      obtain ⟨op, member⟩ := member
      obtain ⟨b, hb, hrest⟩ := Option.bind_eq_some_iff.1 hmembers
      obtain ⟨bs, hbs, hrest⟩ := Option.bind_eq_some_iff.1 hrest
      cases hrest
      -- the first member is folded with `+` or `*` onto what the fold begins with
      cases c with
      | sum =>
          change evaluateTerms ops t values ops.zero ((.plus, first) :: (op, member) :: rest) = _
          rw [evaluateTerms_eq, memberValues, hfirst, hmembers]
          rfl
      | product =>
          change evaluateFactors ops t values ops.one ((.times, first) :: (op, member) :: rest) = _
          rw [evaluateFactors_eq, memberValues, hfirst, hmembers]
          rfl
      | power => exact evaluateBases_eq hfirst hmembers

end Function

end FlightCurve

import FlightCurve.Arithmetic
import FlightCurve.Function

/-!
The value of a function, given the curve parameter and the values of the assignments. A sum is
folded from zero and a product from one, with the operator of each term, and a power from its right
end. There is no value exactly where an index refers to no assignment; functions whose references
are below the number of values always have one.
-/

namespace FlightCurve.Function

variable {α : Type} (ops : Arithmetic α) (t : α) (values : List α)

mutual

def evaluate : Function → Option α
  | .parameter => some t
  | .ref index => values[index]?
  | .const value => some (ops.literal value)
  | .sum terms => evaluateTerms ops.zero terms
  | .product factors => evaluateFactors ops.one factors
  | .power bases => evaluateBases bases
  | .neg operand => do
      let a ← operand.evaluate
      some (ops.neg a)
  | .unary fn operand => do
      let a ← operand.evaluate
      some (ops.unary fn a)
  | .binary fn first second => do
      let a ← first.evaluate
      let b ← second.evaluate
      some (ops.binary fn a b)

/-- Adds the terms to what was summed up before them. -/
def evaluateTerms (acc : α) : List (AddOp × Function) → Option α
  | [] => some acc
  | (op, term) :: rest => do
      let a ← term.evaluate
      evaluateTerms (ops.additive op acc a) rest

/-- Multiplies what was multiplied up before by the factors. -/
def evaluateFactors (acc : α) : List (MulOp × Function) → Option α
  | [] => some acc
  | (op, factor) :: rest => do
      let a ← factor.evaluate
      evaluateFactors (ops.multiplicative op acc a) rest

/-- The power tower of the bases. -/
def evaluateBases : List Function → Option α
  | [] => some ops.one
  | base :: rest => do
      let exponent ← evaluateBases rest
      let a ← base.evaluate
      some (ops.pow a exponent)

end

/-- The values of the assignments, each of which sees the values before its own. -/
def evaluateInOrder (ops : Arithmetic α) (t : α) : List α → List Function → Option (List α)
  | values, [] => some values
  | values, f :: rest => do
      let a ← f.evaluate ops t values
      evaluateInOrder ops t (values ++ [a]) rest

/-- The value of a function over assignments, all of which are evaluated first. -/
def evaluateWith (ops : Arithmetic α) (assigns : List Function) (t : α) (f : Function) :
    Option α := do
  let values ← evaluateInOrder ops t [] assigns
  f.evaluate ops t values

/-! Functions that refer to what is there have a value -/

mutual

theorem evaluate_isSome (f : Function) (h : f.refsBelow values.length = true) :
    (f.evaluate ops t values).isSome := by
  match f, h with
  | .parameter, _ => rfl
  | .ref index, h =>
      have : index < values.length := by simpa [refsBelow] using h
      simp [evaluate, this]
  | .const _, _ => rfl
  | .sum terms, h => exact evaluateTerms_isSome ops.zero terms h
  | .product factors, h => exact evaluateFactors_isSome ops.one factors h
  | .power bases, h => exact evaluateBases_isSome bases h
  | .neg operand, h =>
      obtain ⟨a, ha⟩ := Option.isSome_iff_exists.1 (evaluate_isSome operand h)
      simp [evaluate, ha]
  | .unary fn operand, h =>
      obtain ⟨a, ha⟩ := Option.isSome_iff_exists.1 (evaluate_isSome operand h)
      simp [evaluate, ha]
  | .binary fn first second, h =>
      simp only [refsBelow, Bool.and_eq_true] at h
      obtain ⟨a, ha⟩ := Option.isSome_iff_exists.1 (evaluate_isSome first h.1)
      obtain ⟨b, hb⟩ := Option.isSome_iff_exists.1 (evaluate_isSome second h.2)
      simp [evaluate, ha, hb]

theorem evaluateTerms_isSome (acc : α) (terms : List (AddOp × Function))
    (h : refsBelowTerms values.length terms = true) :
    (evaluateTerms ops t values acc terms).isSome := by
  match terms, h with
  | [], _ => rfl
  | (op, term) :: rest, h =>
      simp only [refsBelowTerms, Bool.and_eq_true] at h
      obtain ⟨a, ha⟩ := Option.isSome_iff_exists.1 (evaluate_isSome term h.1)
      simpa [evaluateTerms, ha] using evaluateTerms_isSome (ops.additive op acc a) rest h.2

theorem evaluateFactors_isSome (acc : α) (factors : List (MulOp × Function))
    (h : refsBelowFactors values.length factors = true) :
    (evaluateFactors ops t values acc factors).isSome := by
  match factors, h with
  | [], _ => rfl
  | (op, factor) :: rest, h =>
      simp only [refsBelowFactors, Bool.and_eq_true] at h
      obtain ⟨a, ha⟩ := Option.isSome_iff_exists.1 (evaluate_isSome factor h.1)
      simpa [evaluateFactors, ha] using
        evaluateFactors_isSome (ops.multiplicative op acc a) rest h.2

theorem evaluateBases_isSome (bases : List Function)
    (h : refsBelowAll values.length bases = true) :
    (evaluateBases ops t values bases).isSome := by
  match bases, h with
  | [], _ => rfl
  | base :: rest, h =>
      simp only [refsBelowAll, Bool.and_eq_true] at h
      obtain ⟨a, ha⟩ := Option.isSome_iff_exists.1 (evaluate_isSome base h.1)
      obtain ⟨b, hb⟩ := Option.isSome_iff_exists.1 (evaluateBases_isSome rest h.2)
      simp [evaluateBases, ha, hb]

end

theorem evaluateInOrder_eq_some (fs : List Function) (h : inOrder values.length fs = true) :
    ∃ all, evaluateInOrder ops t values fs = some all ∧
      all.length = values.length + fs.length := by
  induction fs generalizing values with
  | nil => exact ⟨values, rfl, rfl⟩
  | cons f fs ih =>
      simp only [inOrder, Bool.and_eq_true] at h
      obtain ⟨a, ha⟩ := Option.isSome_iff_exists.1 (evaluate_isSome ops t values f h.1)
      obtain ⟨all, hall, hlength⟩ := ih (values ++ [a]) (by simpa using h.2)
      refine ⟨all, by simp [evaluateInOrder, ha, hall], ?_⟩
      simp only [hlength, List.length_append, List.length_cons, List.length_nil]
      omega

/-- Over assignments that refer backwards, a function that refers to them has a value. -/
theorem evaluateWith_isSome {assigns : List Function} (h : inOrder 0 assigns = true)
    {f : Function} (hf : f.refsBelow assigns.length = true) :
    (f.evaluateWith ops assigns t).isSome := by
  obtain ⟨all, hall, hlength⟩ := evaluateInOrder_eq_some ops t [] assigns h
  rw [List.length_nil, Nat.zero_add] at hlength
  simpa [evaluateWith, hall] using evaluate_isSome ops t all f (hlength ▸ hf)

end FlightCurve.Function

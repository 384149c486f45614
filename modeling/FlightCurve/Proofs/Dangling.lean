import FlightCurve.Proofs.Submission
import FlightCurve.Proofs.Substitution

/-!
Dangling references. The list of assignments need not be one that was compiled: an assignment may
refer to itself or to a later one, and a function past the end of the list.

The main statement is that there is no value in these cases and in no others, whatever the
operations do: every operand of every node is evaluated, and so is every assignment.
-/

namespace FlightCurve.Function

/-- A reference to nothing: in some assignment, used or not, to itself or a later one, or in the
function past the last assignment. -/
inductive Dangles (assigns : List Function) (f : Function) : Prop
  | assignment {k i : Nat} {g : Function} (assigned : assigns[k]? = some g) (mem : i ∈ g.refs)
      (le : k ≤ i)
  | function {i : Nat} (mem : i ∈ f.refs) (le : assigns.length ≤ i)

theorem inOrder_iff {assigns : List Function} :
    inOrder 0 assigns = true ↔
      ∀ (k : Nat) (g : Function), assigns[k]? = some g → ∀ i ∈ g.refs, i < k := by
  constructor
  · intro h k g hg i hi
    have hlt := lt_of_inOrder h hg i hi
    rwa [Nat.zero_add] at hlt
  · intro h
    refine inOrder_of_forall 0 fun k g hg => g.refsBelow_iff.2 fun i hi => ?_
    rw [Nat.zero_add]
    exact h k g hg i hi

theorem not_dangles_iff {assigns : List Function} {f : Function} :
    ¬ f.Dangles assigns ↔ inOrder 0 assigns = true ∧ f.refsBelow assigns.length = true := by
  rw [inOrder_iff, refsBelow_iff]
  constructor
  · intro h
    refine ⟨fun k g hg i hi => ?_, fun i hi => ?_⟩
    · exact Nat.lt_of_not_le fun hle => h (.assignment hg hi hle)
    · exact Nat.lt_of_not_le fun hle => h (.function hi hle)
  · rintro ⟨hassigns, hf⟩ h
    cases h with
    | assignment hg hi hle => exact absurd (hassigns _ _ hg _ hi) (Nat.not_lt.2 hle)
    | function hi hle => exact absurd (hf _ hi) (Nat.not_lt.2 hle)

section Evaluation

variable {α : Type} {ops : Arithmetic α} {t : α} {values : List α}

/-! A node has a value only if all of its operands have one. -/

mutual

theorem refsBelow_of_evaluate (f : Function) {a : α} (h : f.evaluate ops t values = some a) :
    f.refsBelow values.length = true := by
  match f, h with
  | .parameter, _ => rfl
  | .ref index, h =>
      obtain ⟨hindex, _⟩ := List.getElem?_eq_some_iff.1 h
      exact decide_eq_true hindex
  | .const _, _ => rfl
  | .sum terms, h => exact refsBelowTerms_of_evaluateTerms terms h
  | .product factors, h => exact refsBelowFactors_of_evaluateFactors factors h
  | .power bases, h => exact refsBelowAll_of_evaluateBases bases h
  | .neg operand, h =>
      obtain ⟨b, hb, _⟩ := Option.bind_eq_some_iff.1 h
      exact refsBelow_of_evaluate operand hb
  | .unary _ operand, h =>
      obtain ⟨b, hb, _⟩ := Option.bind_eq_some_iff.1 h
      exact refsBelow_of_evaluate operand hb
  | .binary _ first second, h =>
      obtain ⟨b, hb, h⟩ := Option.bind_eq_some_iff.1 h
      obtain ⟨c, hc, _⟩ := Option.bind_eq_some_iff.1 h
      rw [refsBelow, Bool.and_eq_true]
      exact ⟨refsBelow_of_evaluate first hb, refsBelow_of_evaluate second hc⟩

theorem refsBelowTerms_of_evaluateTerms (terms : List (AddOp × Function)) {acc a : α}
    (h : evaluateTerms ops t values acc terms = some a) :
    refsBelowTerms values.length terms = true := by
  match terms, h with
  | [], _ => rfl
  | (_, term) :: rest, h =>
      obtain ⟨b, hb, h⟩ := Option.bind_eq_some_iff.1 h
      rw [refsBelowTerms, Bool.and_eq_true]
      exact ⟨refsBelow_of_evaluate term hb, refsBelowTerms_of_evaluateTerms rest h⟩

theorem refsBelowFactors_of_evaluateFactors (factors : List (MulOp × Function)) {acc a : α}
    (h : evaluateFactors ops t values acc factors = some a) :
    refsBelowFactors values.length factors = true := by
  match factors, h with
  | [], _ => rfl
  | (_, factor) :: rest, h =>
      obtain ⟨b, hb, h⟩ := Option.bind_eq_some_iff.1 h
      rw [refsBelowFactors, Bool.and_eq_true]
      exact ⟨refsBelow_of_evaluate factor hb, refsBelowFactors_of_evaluateFactors rest h⟩

theorem refsBelowAll_of_evaluateBases (bases : List Function) {a : α}
    (h : evaluateBases ops t values bases = some a) : refsBelowAll values.length bases = true := by
  match bases, h with
  | [], _ => rfl
  | base :: rest, h =>
      obtain ⟨b, hb, h⟩ := Option.bind_eq_some_iff.1 h
      obtain ⟨c, hc, _⟩ := Option.bind_eq_some_iff.1 h
      rw [refsBelowAll, Bool.and_eq_true]
      exact ⟨refsBelow_of_evaluate base hc, refsBelowAll_of_evaluateBases rest hb⟩

end

/-- Each assignment that has been evaluated adds one value, so what has a value is in order. -/
theorem inOrder_of_evaluateInOrder {fs : List Function} {all : List α}
    (h : evaluateInOrder ops t values fs = some all) : inOrder values.length fs = true := by
  induction fs generalizing values with
  | nil => rfl
  | cons f fs ih =>
      obtain ⟨a, ha, h⟩ := Option.bind_eq_some_iff.1 h
      have hrest := ih h
      rw [List.length_append, List.length_singleton] at hrest
      rw [inOrder, Bool.and_eq_true]
      exact ⟨refsBelow_of_evaluate f ha, hrest⟩

theorem evaluateWith_isSome_iff {assigns : List Function} {f : Function} :
    (f.evaluateWith ops assigns t).isSome ↔
      inOrder 0 assigns = true ∧ f.refsBelow assigns.length = true := by
  constructor
  · intro h
    obtain ⟨a, ha⟩ := Option.isSome_iff_exists.1 h
    obtain ⟨all, hall, ha⟩ := Option.bind_eq_some_iff.1 ha
    have horder := inOrder_of_evaluateInOrder hall
    -- all values are there, so the function was evaluated over as many as there are assignments
    obtain ⟨all', hall', hlength⟩ := evaluateInOrder_eq_some ops t [] assigns horder
    rw [hall] at hall'
    cases hall'
    rw [List.length_nil, Nat.zero_add] at hlength
    exact ⟨horder, hlength ▸ refsBelow_of_evaluate f ha⟩
  · rintro ⟨horder, hf⟩
    exact evaluateWith_isSome ops t horder hf

end Evaluation

/-- Evaluation over any list of assignments has no value exactly if a reference dangles, in the
function or in some assignment, used or not. In all other cases it has one, whatever the operations
are and whatever values occur. -/
theorem evaluateWith_eq_none_iff_dangles {α : Type} (ops : Arithmetic α) (assigns : List Function)
    (t : α) (f : Function) :
    (f.evaluateWith ops assigns t = none ↔ f.Dangles assigns) ∧
      ((∃ value, f.evaluateWith ops assigns t = some value) ↔ ¬ f.Dangles assigns) := by
  have hsome : (∃ value, f.evaluateWith ops assigns t = some value) ↔ ¬ f.Dangles assigns := by
    rw [not_dangles_iff, ← evaluateWith_isSome_iff, Option.isSome_iff_exists]
  refine ⟨?_, hsome⟩
  rw [← not_iff_not, ← hsome, ← ne_eq, Option.ne_none_iff_exists']

/-- An assignment that nothing uses is evaluated all the same. -/
example : (const 1).evaluateWith .double [.ref 0] 0 = none := by decide +kernel

end FlightCurve.Function

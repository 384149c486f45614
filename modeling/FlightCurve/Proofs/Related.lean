import Mathlib.Data.List.Forall2
import FlightCurve.Function.Evaluation

/-!
Evaluation with two kinds of operations. If each operation of one kind does to its values what the
operation of the other kind does to related ones, evaluation does so too: it uses its operations and
nothing else of the values.
-/

namespace FlightCurve

variable {α β : Type}

/-- The operations of `ops` and `others` take related values to related values. -/
structure Arithmetic.Related (R : α → β → Prop) (ops : Arithmetic α) (others : Arithmetic β) :
    Prop where
  zero : R ops.zero others.zero
  one : R ops.one others.one
  literal (x : Float) : R (ops.literal x) (others.literal x)
  additive (op : AddOp) {a b : α} {a' b' : β} (ha : R a a') (hb : R b b') :
    R (ops.additive op a b) (others.additive op a' b')
  multiplicative (op : MulOp) {a b : α} {a' b' : β} (ha : R a a') (hb : R b b') :
    R (ops.multiplicative op a b) (others.multiplicative op a' b')
  pow {a b : α} {a' b' : β} (ha : R a a') (hb : R b b') : R (ops.pow a b) (others.pow a' b')
  neg {a : α} {a' : β} (ha : R a a') : R (ops.neg a) (others.neg a')
  unary (fn : UnaryFn) {a : α} {a' : β} (ha : R a a') : R (ops.unary fn a) (others.unary fn a')
  binary (fn : BinaryFn) {a b : α} {a' b' : β} (ha : R a a') (hb : R b b') :
    R (ops.binary fn a b) (others.binary fn a' b')

/-! Outcomes that are related: both are missing, or both are there and related -/

theorem relBind {α' β' : Type} {R : α → β → Prop} {S : α' → β' → Prop} {x : Option α}
    {y : Option β} {f : α → Option α'} {g : β → Option β'} (hxy : Option.Rel R x y)
    (hfg : ∀ a b, R a b → Option.Rel S (f a) (g b)) : Option.Rel S (x >>= f) (y >>= g) := by
  cases hxy with
  | none => exact .none
  | some hab => exact hfg _ _ hab

theorem eq_none_of_rel_none {R : α → β → Prop} {x : Option α} (h : Option.Rel R x none) :
    x = none := by
  cases h
  rfl

theorem eq_none_of_none_rel {R : α → β → Prop} {y : Option β} (h : Option.Rel R none y) :
    y = none := by
  cases h
  rfl

theorem exists_of_rel_some {R : α → β → Prop} {x : Option α} {b : β}
    (h : Option.Rel R x (some b)) : ∃ a, x = some a ∧ R a b := by
  cases h with
  | some hab => exact ⟨_, rfl, hab⟩

theorem exists_of_some_rel {R : α → β → Prop} {a : α} {y : Option β}
    (h : Option.Rel R (some a) y) : ∃ b, y = some b ∧ R a b := by
  cases h with
  | some hab => exact ⟨_, rfl, hab⟩

theorem map_eq_of_rel {x : Option α} {y : Option β} {f : α → β}
    (h : Option.Rel (fun a b => f a = b) x y) : x.map f = y := by
  cases h with
  | none => rfl
  | some hab => exact congrArg some hab

theorem relGetElem? {R : α → β → Prop} {as : List α} {bs : List β} (h : List.Forall₂ R as bs)
    (i : Nat) : Option.Rel R as[i]? bs[i]? := by
  induction h generalizing i with
  | nil => exact .none
  | cons hab _ ih =>
      cases i with
      | zero => exact .some hab
      | succ i => exact ih i

namespace Function

variable {R : α → β → Prop} {ops : Arithmetic α} {others : Arithmetic β}

section Evaluation

variable {t : α} {t' : β} {values : List α} {values' : List β}

-- one case for each form of function, each of which applies the operations of that form
mutual

theorem evaluate_related (h : ops.Related R others) (ht : R t t')
    (hvalues : List.Forall₂ R values values') (f : Function) :
    Option.Rel R (f.evaluate ops t values) (f.evaluate others t' values') := by
  match f with
  | .parameter => exact .some ht
  | .ref index => exact relGetElem? hvalues index
  | .const value => exact .some (h.literal value)
  | .sum terms => exact evaluateTerms_related h ht hvalues h.zero terms
  | .product factors => exact evaluateFactors_related h ht hvalues h.one factors
  | .power bases => exact evaluateBases_related h ht hvalues bases
  | .neg operand =>
      exact relBind (evaluate_related h ht hvalues operand) fun _ _ ha => .some (h.neg ha)
  | .unary fn operand =>
      exact relBind (evaluate_related h ht hvalues operand) fun _ _ ha => .some (h.unary fn ha)
  | .binary fn first second =>
      exact relBind (evaluate_related h ht hvalues first) fun _ _ ha =>
        relBind (evaluate_related h ht hvalues second) fun _ _ hb => .some (h.binary fn ha hb)

theorem evaluateTerms_related (h : ops.Related R others) (ht : R t t')
    (hvalues : List.Forall₂ R values values') {acc : α} {acc' : β} (hacc : R acc acc')
    (terms : List (AddOp × Function)) :
    Option.Rel R (evaluateTerms ops t values acc terms)
      (evaluateTerms others t' values' acc' terms) := by
  match terms with
  | [] => exact .some hacc
  | (op, term) :: rest =>
      exact relBind (evaluate_related h ht hvalues term) fun _ _ ha =>
        evaluateTerms_related h ht hvalues (h.additive op hacc ha) rest

theorem evaluateFactors_related (h : ops.Related R others) (ht : R t t')
    (hvalues : List.Forall₂ R values values') {acc : α} {acc' : β} (hacc : R acc acc')
    (factors : List (MulOp × Function)) :
    Option.Rel R (evaluateFactors ops t values acc factors)
      (evaluateFactors others t' values' acc' factors) := by
  match factors with
  | [] => exact .some hacc
  | (op, factor) :: rest =>
      exact relBind (evaluate_related h ht hvalues factor) fun _ _ ha =>
        evaluateFactors_related h ht hvalues (h.multiplicative op hacc ha) rest

theorem evaluateBases_related (h : ops.Related R others) (ht : R t t')
    (hvalues : List.Forall₂ R values values') (bases : List Function) :
    Option.Rel R (evaluateBases ops t values bases) (evaluateBases others t' values' bases) := by
  match bases with
  | [] => exact .some h.one
  | base :: rest =>
      exact relBind (evaluateBases_related h ht hvalues rest) fun _ _ hexponent =>
        relBind (evaluate_related h ht hvalues base) fun _ _ ha => .some (h.pow ha hexponent)

end

end Evaluation

/-- The forward pass over assignments keeps the relation of all values that it collects. -/
theorem evaluateInOrder_related (h : ops.Related R others) {t : α} {t' : β} (ht : R t t')
    {values : List α} {values' : List β} (hvalues : List.Forall₂ R values values')
    (fs : List Function) :
    Option.Rel (List.Forall₂ R) (evaluateInOrder ops t values fs)
      (evaluateInOrder others t' values' fs) := by
  induction fs generalizing values values' with
  | nil => exact .some hvalues
  | cons f fs ih =>
      exact relBind (evaluate_related h ht hvalues f) fun _ _ ha =>
        ih (List.rel_append hvalues (.cons ha .nil))

theorem evaluateWith_related (h : ops.Related R others) {t : α} {t' : β} (ht : R t t')
    (assigns : List Function) (f : Function) :
    Option.Rel R (f.evaluateWith ops assigns t) (f.evaluateWith others assigns t') :=
  relBind (evaluateInOrder_related h ht .nil assigns) fun _ _ hvalues =>
    evaluate_related h ht hvalues f

end Function

end FlightCurve

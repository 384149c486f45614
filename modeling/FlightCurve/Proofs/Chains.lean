import FlightCurve.Arithmetic.Double
import FlightCurve.Proofs.Folds
import FlightCurve.Proofs.Identities

/-!
Where chains are folded from. A sum is summed up from zero, a product multiplied up from one, and
the last exponent of a power has the exponent one itself. The value is that of the fold which begins
with the first member, but for one case: where a sum begins with a negative zero, and only terms
follow that leave it one, the fold from zero has come to the other zero before them and stays there.
-/

namespace FlightCurve

namespace Arithmetic

variable {α : Type} (ops : Arithmetic α)

/-- What is known of zero and one as seeds. One is neutral where it is used, and zero is for all
values but the negative zero. Sums of zeros have the sign of the one that is positive, and what is
no zero makes the sign of a zero be forgotten. -/
structure NeutralSeeds (negZero : α) : Prop where
  one_mul (a : α) : ops.mul ops.one a = a
  pow_one (a : α) : ops.pow a ops.one = a
  zero_ne_negZero : ops.zero ≠ negZero
  zero_add {a : α} (h : a ≠ negZero) : ops.add ops.zero a = a
  zero_add_negZero : ops.add ops.zero negZero = ops.zero
  zero_sub_zero : ops.sub ops.zero ops.zero = ops.zero
  zero_sub_negZero : ops.sub ops.zero negZero = ops.zero
  negZero_add_zero : ops.add negZero ops.zero = ops.zero
  negZero_add_negZero : ops.add negZero negZero = negZero
  negZero_sub_zero : ops.sub negZero ops.zero = negZero
  negZero_sub_negZero : ops.sub negZero negZero = ops.zero
  add_eq {a : α} (h : a ≠ ops.zero) (h' : a ≠ negZero) : ops.add ops.zero a = ops.add negZero a
  sub_eq {a : α} (h : a ≠ ops.zero) (h' : a ≠ negZero) : ops.sub ops.zero a = ops.sub negZero a

/-- Whether a term leaves a zero as it is, of whichever sign. -/
def LeavesZero (negZero : α) : AddOp × α → Prop
  | (.plus, a) => a = negZero
  | (.minus, a) => a = ops.zero

namespace NeutralSeeds

variable {ops : Arithmetic α} {negZero : α} (laws : ops.NeutralSeeds negZero)
include laws

theorem additive_of_leavesZero {term : AddOp × α} (h : ops.LeavesZero negZero term) :
    ops.additive term.1 ops.zero term.2 = ops.zero ∧
      ops.additive term.1 negZero term.2 = negZero := by
  obtain ⟨op, a⟩ := term
  cases op with
  | plus =>
      obtain rfl : a = negZero := h
      exact ⟨laws.zero_add_negZero, laws.negZero_add_negZero⟩
  | minus =>
      obtain rfl : a = ops.zero := h
      exact ⟨laws.zero_sub_zero, laws.negZero_sub_zero⟩

/-- Any other term makes the two folds meet. -/
theorem additive_eq {term : AddOp × α} (h : ¬ops.LeavesZero negZero term) :
    ops.additive term.1 ops.zero term.2 = ops.additive term.1 negZero term.2 := by
  obtain ⟨op, a⟩ := term
  cases op with
  | plus =>
      by_cases hzero : a = ops.zero
      · rw [hzero]
        exact (laws.zero_add laws.zero_ne_negZero).trans laws.negZero_add_zero.symm
      · exact laws.add_eq hzero h
  | minus =>
      by_cases hneg : a = negZero
      · rw [hneg]
        exact laws.zero_sub_negZero.trans laws.negZero_sub_negZero.symm
      · exact laws.sub_eq h hneg

theorem sumFrom_of_leavesZero {terms : List (AddOp × α)}
    (h : ∀ term ∈ terms, ops.LeavesZero negZero term) :
    ops.sumFrom ops.zero terms = ops.zero ∧ ops.sumFrom negZero terms = negZero := by
  induction terms with
  | nil => exact ⟨rfl, rfl⟩
  | cons term rest ih =>
      rw [List.forall_mem_cons] at h
      obtain ⟨hzero, hneg⟩ := laws.additive_of_leavesZero h.1
      rw [sumFrom_cons, sumFrom_cons, hzero, hneg]
      exact ih h.2

/-- Two sums from the two zeros come to the same value, unless every term leaves a zero as it is. -/
theorem sumFrom_zero_eq_iff (terms : List (AddOp × α)) :
    ops.sumFrom ops.zero terms = ops.sumFrom negZero terms ↔
      ¬∀ term ∈ terms, ops.LeavesZero negZero term := by
  constructor
  · intro heq hall
    obtain ⟨hzero, hneg⟩ := laws.sumFrom_of_leavesZero hall
    rw [hzero, hneg] at heq
    exact laws.zero_ne_negZero heq
  · intro hsome
    induction terms with
    | nil => exact absurd (List.forall_mem_nil _) hsome
    | cons term rest ih =>
        rw [sumFrom_cons, sumFrom_cons]
        by_cases hterm : ops.LeavesZero negZero term
        · obtain ⟨hzero, hneg⟩ := laws.additive_of_leavesZero hterm
          rw [hzero, hneg]
          exact ih fun hall => hsome (List.forall_mem_cons.2 ⟨hterm, hall⟩)
        · rw [laws.additive_eq hterm]

/-- The exponent one at the top of a power does not change it. -/
theorem tower_concat_one (base : α) (exponents : List α) :
    ops.tower base (exponents ++ [ops.one]) = ops.tower base exponents := by
  induction exponents generalizing base with
  | nil => exact laws.pow_one base
  | cons exponent rest ih => exact congrArg (ops.pow base) (ih exponent)

end NeutralSeeds

/-- Doubles have two such zeros. -/
theorem double_neutralSeeds : Arithmetic.double.NeutralSeeds (-0) where
  one_mul := Double.one_mul
  pow_one := Double.pow_one
  zero_ne_negZero := by decide +kernel
  zero_add := Double.zero_add
  zero_add_negZero := by decide +kernel
  zero_sub_zero := by decide +kernel
  zero_sub_negZero := by decide +kernel
  negZero_add_zero := by decide +kernel
  negZero_add_negZero := by decide +kernel
  negZero_sub_zero := by decide +kernel
  negZero_sub_negZero := by decide +kernel
  add_eq := Double.zero_add_eq
  sub_eq := Double.zero_sub_eq

end Arithmetic

namespace Function

variable {α : Type} {ops : Arithmetic α} {t : α} {values : List α}

/-- The value of a chain as compilation joins it, from the values of its members: the fold from the
first member on. The one exception is a sum that begins with a negative zero and goes on with terms
that leave a zero as it is. That fold is the negative zero, and the value the other one. -/
theorem chain_folds_from_first {negZero : α} (laws : ops.NeutralSeeds negZero) {first : Function}
    {a : α} (hfirst : first.evaluate ops t values = some a) :
    (∀ factors as, memberValues ops t values factors = some as →
      (ofChain .product first factors).evaluate ops t values = some (ops.productFrom a as)) ∧
    (∀ bases as, memberValues ops t values bases = some as →
      (ofChain .power first bases).evaluate ops t values = some (ops.tower a (as.map (·.2)))) ∧
    ∀ terms as, memberValues ops t values terms = some as →
      ((ofChain .sum first terms).evaluate ops t values = some (ops.sumFrom a as) ↔
        ¬(as ≠ [] ∧ a = negZero ∧ ∀ term ∈ as, ops.LeavesZero negZero term)) ∧
      (as ≠ [] ∧ a = negZero ∧ (∀ term ∈ as, ops.LeavesZero negZero term) →
        (ofChain .sum first terms).evaluate ops t values = some ops.zero ∧
          ops.sumFrom a as = negZero) := by
  refine ⟨fun factors as hfactors => ?_, fun bases as hbases => ?_, fun terms as hterms => ?_⟩
  · rw [evaluate_ofChain .product hfirst hfactors]
    cases as with
    | nil => rfl
    | cons factor rest =>
        change some (ops.productFrom (ops.mul ops.one a) (factor :: rest)) = _
        rw [laws.one_mul]
  · rw [evaluate_ofChain .power hfirst hbases]
    cases as with
    | nil => rfl
    | cons base rest => exact congrArg some (laws.tower_concat_one a _)
  · rw [evaluate_ofChain .sum hfirst hterms]
    simp only [Option.some_inj]
    by_cases hne : as = []
    · -- the chain is its first member
      subst hne
      exact ⟨iff_of_true rfl fun h => h.1 rfl, fun h => absurd rfl h.1⟩
    · rw [Chain.fold_sum ops a hne]
      by_cases ha : a = negZero
      · rw [ha, laws.zero_add_negZero, laws.sumFrom_zero_eq_iff]
        exact ⟨not_congr ⟨fun h => ⟨hne, rfl, h⟩, fun h => h.2.2⟩,
          fun h => laws.sumFrom_of_leavesZero h.2.2⟩
      · rw [laws.zero_add ha]
        exact ⟨iff_of_true rfl fun h => ha h.2.1, fun h => absurd h.2.1 ha⟩

/-- A negative zero less a zero, and the same two values in a quotient and in a power. -/
theorem chain_folds_from_first_negative_zero :
    Arithmetic.double.NeutralSeeds (-0) ∧
      (ref 0).evaluate .double 0.5 [-0, 0] = some (-0) ∧
      (ofChain .product (ref 0) [(.divide, ref 1)]).evaluate .double 0.5 [-0, 0] =
        some (Arithmetic.double.productFrom (-0) [(.divide, 0)]) ∧
      (ofChain .power (ref 0) [((), ref 1)]).evaluate .double 0.5 [-0, 0] =
        some (Arithmetic.double.tower (-0) [0]) ∧
      (ofChain .sum (ref 0) [(.minus, ref 1)]).evaluate .double 0.5 [-0, 0] = some 0 ∧
      Arithmetic.double.sumFrom (-0) [(.minus, 0)] = -0 := by
  have hfirst : (ref 0).evaluate .double 0.5 [-0, 0] = some (-0) := rfl
  obtain ⟨hproduct, hpower, hsum⟩ :=
    chain_folds_from_first Arithmetic.double_neutralSeeds hfirst
  have hleaves : ∀ term ∈ [(AddOp.minus, (0 : Float))],
      Arithmetic.double.LeavesZero (-0) term :=
    List.forall_mem_singleton.2 rfl
  obtain ⟨hvalue, hfold⟩ := (hsum [(.minus, ref 1)] [(.minus, 0)] rfl).2
    ⟨List.cons_ne_nil _ _, rfl, hleaves⟩
  exact ⟨Arithmetic.double_neutralSeeds, hfirst, hproduct [(.divide, ref 1)] [(.divide, 0)] rfl,
    hpower [((), ref 1)] [((), 0)] rfl, hvalue, hfold⟩

end Function

end FlightCurve

import FlightCurve.Arithmetic.Double
import FlightCurve.Function.Evaluation

/-!
Assignments as abbreviations. Instead of evaluating the assignments one after the other, one may
replace every reference by the assignment that it refers to, and go on so within what was put in,
until no reference is left. The function grows beyond measure, but its value is the same.

The main statement says so for all assignments that refer backwards, and that an assignment that is
not used, directly or through others, may be any other one.
-/

namespace FlightCurve.Function

/-! References -/

mutual

/-- The indices that a function refers to, in the order of the text. -/
def refs : Function → List Nat
  | .parameter => []
  | .ref index => [index]
  | .const _ => []
  | .sum terms => refsOfTerms terms
  | .product factors => refsOfFactors factors
  | .power bases => refsOfBases bases
  | .neg operand => operand.refs
  | .unary _ operand => operand.refs
  | .binary _ first second => first.refs ++ second.refs

def refsOfTerms : List (AddOp × Function) → List Nat
  | [] => []
  | (_, term) :: rest => term.refs ++ refsOfTerms rest

def refsOfFactors : List (MulOp × Function) → List Nat
  | [] => []
  | (_, factor) :: rest => factor.refs ++ refsOfFactors rest

def refsOfBases : List Function → List Nat
  | [] => []
  | base :: rest => base.refs ++ refsOfBases rest

end

mutual

theorem refsBelow_iff {n : Nat} (f : Function) : f.refsBelow n = true ↔ ∀ i ∈ f.refs, i < n := by
  match f with
  | .parameter => simp [refsBelow, refs]
  | .ref index => simp [refsBelow, refs]
  | .const _ => simp [refsBelow, refs]
  | .sum terms => exact refsBelowTerms_iff terms
  | .product factors => exact refsBelowFactors_iff factors
  | .power bases => exact refsBelowAll_iff bases
  | .neg operand => exact refsBelow_iff operand
  | .unary _ operand => exact refsBelow_iff operand
  | .binary _ first second =>
      rw [refsBelow, refs, Bool.and_eq_true, refsBelow_iff first, refsBelow_iff second,
        List.forall_mem_append]

theorem refsBelowTerms_iff {n : Nat} (terms : List (AddOp × Function)) :
    refsBelowTerms n terms = true ↔ ∀ i ∈ refsOfTerms terms, i < n := by
  match terms with
  | [] => simp [refsBelowTerms, refsOfTerms]
  | (_, term) :: rest =>
      rw [refsBelowTerms, refsOfTerms, Bool.and_eq_true, refsBelow_iff term,
        refsBelowTerms_iff rest, List.forall_mem_append]

theorem refsBelowFactors_iff {n : Nat} (factors : List (MulOp × Function)) :
    refsBelowFactors n factors = true ↔ ∀ i ∈ refsOfFactors factors, i < n := by
  match factors with
  | [] => simp [refsBelowFactors, refsOfFactors]
  | (_, factor) :: rest =>
      rw [refsBelowFactors, refsOfFactors, Bool.and_eq_true, refsBelow_iff factor,
        refsBelowFactors_iff rest, List.forall_mem_append]

theorem refsBelowAll_iff {n : Nat} (bases : List Function) :
    refsBelowAll n bases = true ↔ ∀ i ∈ refsOfBases bases, i < n := by
  match bases with
  | [] => simp [refsBelowAll, refsOfBases]
  | base :: rest =>
      rw [refsBelowAll, refsOfBases, Bool.and_eq_true, refsBelow_iff base,
        refsBelowAll_iff rest, List.forall_mem_append]

end

/-- Functions in order refer to indices below their own. -/
theorem lt_of_inOrder {n : Nat} {fs : List Function} (h : inOrder n fs = true) {k : Nat}
    {f : Function} (hf : fs[k]? = some f) : ∀ i ∈ f.refs, i < n + k := by
  induction fs generalizing n k with
  | nil => cases hf
  | cons g fs ih =>
      rw [inOrder, Bool.and_eq_true] at h
      cases k with
      | zero =>
          cases hf
          exact f.refsBelow_iff.1 h.1
      | succ k =>
          have hrest := ih h.2 hf
          rwa [Nat.add_assoc, Nat.add_comm 1 k] at hrest

/-! Substitution -/

section Substitution

variable (σ : Nat → Function)

mutual

/-- Puts the function `σ i` in the place of every reference `i`. -/
def subst : Function → Function
  | .parameter => .parameter
  | .ref index => σ index
  | .const value => .const value
  | .sum terms => .sum (substTerms terms)
  | .product factors => .product (substFactors factors)
  | .power bases => .power (substBases bases)
  | .neg operand => .neg operand.subst
  | .unary fn operand => .unary fn operand.subst
  | .binary fn first second => .binary fn first.subst second.subst

def substTerms : List (AddOp × Function) → List (AddOp × Function)
  | [] => []
  | (op, term) :: rest => (op, term.subst) :: substTerms rest

def substFactors : List (MulOp × Function) → List (MulOp × Function)
  | [] => []
  | (op, factor) :: rest => (op, factor.subst) :: substFactors rest

def substBases : List Function → List Function
  | [] => []
  | base :: rest => base.subst :: substBases rest

end

end Substitution

section Congruence

variable {σ τ : Nat → Function}

-- only what a function refers to is put in; one case for each form of function
mutual

theorem subst_congr (f : Function) (h : ∀ i ∈ f.refs, σ i = τ i) : f.subst σ = f.subst τ := by
  match f, h with
  | .parameter, _ => rfl
  | .ref index, h => exact h index List.mem_cons_self
  | .const _, _ => rfl
  | .sum terms, h => exact congrArg Function.sum (substTerms_congr terms h)
  | .product factors, h => exact congrArg Function.product (substFactors_congr factors h)
  | .power bases, h => exact congrArg Function.power (substBases_congr bases h)
  | .neg operand, h => exact congrArg Function.neg (subst_congr operand h)
  | .unary fn operand, h => exact congrArg (Function.unary fn) (subst_congr operand h)
  | .binary fn first second, h =>
      rw [refs, List.forall_mem_append] at h
      rw [subst, subst, subst_congr first h.1, subst_congr second h.2]

theorem substTerms_congr (terms : List (AddOp × Function))
    (h : ∀ i ∈ refsOfTerms terms, σ i = τ i) : substTerms σ terms = substTerms τ terms := by
  match terms, h with
  | [], _ => rfl
  | (_, term) :: rest, h =>
      rw [refsOfTerms, List.forall_mem_append] at h
      rw [substTerms, substTerms, subst_congr term h.1, substTerms_congr rest h.2]

theorem substFactors_congr (factors : List (MulOp × Function))
    (h : ∀ i ∈ refsOfFactors factors, σ i = τ i) :
    substFactors σ factors = substFactors τ factors := by
  match factors, h with
  | [], _ => rfl
  | (_, factor) :: rest, h =>
      rw [refsOfFactors, List.forall_mem_append] at h
      rw [substFactors, substFactors, subst_congr factor h.1, substFactors_congr rest h.2]

theorem substBases_congr (bases : List Function) (h : ∀ i ∈ refsOfBases bases, σ i = τ i) :
    substBases σ bases = substBases τ bases := by
  match bases, h with
  | [], _ => rfl
  | base :: rest, h =>
      rw [refsOfBases, List.forall_mem_append] at h
      rw [substBases, substBases, subst_congr base h.1, substBases_congr rest h.2]

end

mutual

theorem refs_subst (f : Function) : (f.subst σ).refs = f.refs.flatMap fun i => (σ i).refs := by
  match f with
  | .parameter => rfl
  | .ref index => rw [subst, refs, List.flatMap_singleton]
  | .const _ => rfl
  | .sum terms => exact refsOfTerms_subst terms
  | .product factors => exact refsOfFactors_subst factors
  | .power bases => exact refsOfBases_subst bases
  | .neg operand => exact refs_subst operand
  | .unary _ operand => exact refs_subst operand
  | .binary _ first second =>
      rw [subst, refs, refs, refs_subst first, refs_subst second, List.flatMap_append]

theorem refsOfTerms_subst (terms : List (AddOp × Function)) :
    refsOfTerms (substTerms σ terms) = (refsOfTerms terms).flatMap fun i => (σ i).refs := by
  match terms with
  | [] => rfl
  | (_, term) :: rest =>
      rw [substTerms, refsOfTerms, refsOfTerms, refs_subst term, refsOfTerms_subst rest,
        List.flatMap_append]

theorem refsOfFactors_subst (factors : List (MulOp × Function)) :
    refsOfFactors (substFactors σ factors) =
      (refsOfFactors factors).flatMap fun i => (σ i).refs := by
  match factors with
  | [] => rfl
  | (_, factor) :: rest =>
      rw [substFactors, refsOfFactors, refsOfFactors, refs_subst factor, refsOfFactors_subst rest,
        List.flatMap_append]

theorem refsOfBases_subst (bases : List Function) :
    refsOfBases (substBases σ bases) = (refsOfBases bases).flatMap fun i => (σ i).refs := by
  match bases with
  | [] => rfl
  | base :: rest =>
      rw [substBases, refsOfBases, refsOfBases, refs_subst base, refsOfBases_subst rest,
        List.flatMap_append]

end

end Congruence

section Values

variable {α : Type} {ops : Arithmetic α} {t : α} {values others : List α} {σ : Nat → Function}

-- a function that is put in has the value that is looked up for the reference; without a value
-- there is none for either
mutual

/-- If what is put in for the references has the values that were looked up for them, the value of
the whole is the same. -/
theorem evaluate_subst (h : ∀ i, (σ i).evaluate ops t others = values[i]?) (f : Function) :
    (f.subst σ).evaluate ops t others = f.evaluate ops t values := by
  match f with
  | .parameter => rfl
  | .ref index => exact h index
  | .const _ => rfl
  | .sum terms => exact evaluateTerms_subst h ops.zero terms
  | .product factors => exact evaluateFactors_subst h ops.one factors
  | .power bases => exact evaluateBases_subst h bases
  | .neg operand => rw [subst, evaluate, evaluate, evaluate_subst h operand]
  | .unary fn operand => rw [subst, evaluate, evaluate, evaluate_subst h operand]
  | .binary fn first second =>
      rw [subst, evaluate, evaluate, evaluate_subst h first, evaluate_subst h second]

theorem evaluateTerms_subst (h : ∀ i, (σ i).evaluate ops t others = values[i]?) (acc : α)
    (terms : List (AddOp × Function)) :
    evaluateTerms ops t others acc (substTerms σ terms) =
      evaluateTerms ops t values acc terms := by
  match terms with
  | [] => rfl
  | (op, term) :: rest =>
      rw [substTerms, evaluateTerms, evaluateTerms, evaluate_subst h term]
      exact Option.bind_congr fun a _ => evaluateTerms_subst h (ops.additive op acc a) rest

theorem evaluateFactors_subst (h : ∀ i, (σ i).evaluate ops t others = values[i]?) (acc : α)
    (factors : List (MulOp × Function)) :
    evaluateFactors ops t others acc (substFactors σ factors) =
      evaluateFactors ops t values acc factors := by
  match factors with
  | [] => rfl
  | (op, factor) :: rest =>
      rw [substFactors, evaluateFactors, evaluateFactors, evaluate_subst h factor]
      exact Option.bind_congr fun a _ =>
        evaluateFactors_subst h (ops.multiplicative op acc a) rest

theorem evaluateBases_subst (h : ∀ i, (σ i).evaluate ops t others = values[i]?)
    (bases : List Function) :
    evaluateBases ops t others (substBases σ bases) = evaluateBases ops t values bases := by
  match bases with
  | [] => rfl
  | base :: rest =>
      rw [substBases, evaluateBases, evaluateBases, evaluateBases_subst h rest,
        evaluate_subst h base]

end

/-- The forward pass keeps the values that it has, and each function finds among the values before
its own what it has at the end. -/
theorem evaluateInOrder_values {fs : List Function} {all : List α}
    (h : evaluateInOrder ops t values fs = some all) :
    all.length = values.length + fs.length ∧ all.take values.length = values ∧
      ∀ k f, fs[k]? = some f →
        f.evaluate ops t (all.take (values.length + k)) = all[values.length + k]? := by
  induction fs generalizing values with
  | nil =>
      cases h
      exact ⟨rfl, List.take_length, fun k f hf => by cases hf⟩
  | cons g fs ih =>
      rw [evaluateInOrder] at h
      obtain ⟨a, ha, hrest⟩ := Option.bind_eq_some_iff.1 h
      obtain ⟨hlength, htake, hvalues⟩ := ih hrest
      rw [List.length_append, List.length_singleton] at hlength htake hvalues
      have hbefore : all.take values.length = values := by
        have hshorter := congrArg (List.take values.length) htake
        rwa [List.take_take, Nat.min_eq_left (Nat.le_succ _), List.take_left] at hshorter
      refine ⟨by rw [hlength, List.length_cons]; omega, hbefore, ?_⟩
      intro k f hf
      cases k with
      | zero =>
          cases hf
          have hown : all[values.length]? = some a := by
            rw [← List.getElem?_take_of_lt (Nat.lt_succ_self _), htake,
              List.getElem?_concat_length]
          rw [Nat.add_zero, hbefore, hown]
          exact ha
      | succ k =>
          have hnext := hvalues k f hf
          rwa [Nat.add_assoc, Nat.add_comm 1 k] at hnext

end Values

/-! Expansion -/

/-- The assignment at an index, with what it refers to put in, expanded in turn. An index that is
not before that of the assignment is left as it is. -/
def expanded (assigns : List Function) (index : Nat) : Function :=
  match assigns[index]? with
  | none => .ref index
  | some f => f.subst fun i => if _h : i < index then expanded assigns i else .ref i
termination_by index

/-- The function with every reference replaced by the expanded assignment that it refers to. -/
def expand (assigns : List Function) (f : Function) : Function := f.subst (expanded assigns)

section Expansion

variable {assigns : List Function}

theorem expanded_of_none {index : Nat} (h : assigns[index]? = none) :
    expanded assigns index = .ref index := by
  rw [expanded, h]

theorem expanded_of_some {index : Nat} {f : Function} (h : assigns[index]? = some f) :
    expanded assigns index =
      f.subst fun i => if i < index then expanded assigns i else .ref i := by
  rw [expanded, h]
  rfl

/-- Where assignments refer backwards, a reference expands to the expansion of what it refers to. -/
theorem expand_ref (hassigns : inOrder 0 assigns = true) {index : Nat} {f : Function}
    (hf : assigns[index]? = some f) : (Function.ref index).expand assigns = f.expand assigns := by
  rw [expand, subst, expanded_of_some hf]
  refine subst_congr f fun i hi => if_pos ?_
  have hlt := lt_of_inOrder hassigns hf i hi
  rwa [Nat.zero_add] at hlt

/-- Expanding leaves no references. -/
theorem refs_expand (hassigns : inOrder 0 assigns = true) {f : Function}
    (hf : f.refsBelow assigns.length = true) : (f.expand assigns).refs = [] := by
  have hexpanded : ∀ i, i < assigns.length → (expanded assigns i).refs = [] := by
    intro i
    induction i using Nat.strongRecOn with
    | _ i ih =>
        intro hi
        rw [expanded_of_some (List.getElem?_eq_getElem hi), refs_subst, List.flatMap_eq_nil_iff]
        intro j hj
        have hlt := lt_of_inOrder hassigns (List.getElem?_eq_getElem hi) j hj
        rw [Nat.zero_add] at hlt
        rw [if_pos hlt]
        exact ih j hlt (Nat.lt_trans hlt hi)
  rw [expand, refs_subst, List.flatMap_eq_nil_iff]
  exact fun i hi => hexpanded i (f.refsBelow_iff.1 hf i hi)

variable {α : Type} {ops : Arithmetic α} {t : α}

/-- Each expanded assignment has, without any assignments, the value of the assignment. -/
theorem evaluate_expanded {all : List α} (hall : evaluateInOrder ops t [] assigns = some all)
    (index : Nat) : (expanded assigns index).evaluate ops t [] = all[index]? := by
  obtain ⟨hlength, -, hvalues⟩ := evaluateInOrder_values hall
  rw [List.length_nil, Nat.zero_add] at hlength
  simp only [List.length_nil, Nat.zero_add] at hvalues
  induction index using Nat.strongRecOn with
  | _ index ih =>
      cases hf : assigns[index]? with
      | none =>
          rw [List.getElem?_eq_none_iff] at hf
          rw [expanded_of_none (List.getElem?_eq_none_iff.2 hf),
            List.getElem?_eq_none_iff.2 (hlength ▸ hf)]
          rfl
      | some f =>
          -- the values before this one are those of the expanded assignments before it
          rw [expanded_of_some hf, ← hvalues index f hf]
          refine evaluate_subst (fun i => ?_) f
          by_cases hi : i < index
          · rw [if_pos hi, List.getElem?_take_of_lt hi]
            exact ih i hi
          · rw [if_neg hi, List.getElem?_take_eq_none (Nat.not_lt.1 hi)]
            rfl

theorem evaluateWith_expand_of_inOrder (hassigns : inOrder 0 assigns = true) (f : Function) :
    (f.expand assigns).evaluateWith ops [] t = f.evaluateWith ops assigns t := by
  obtain ⟨all, hall, -⟩ := evaluateInOrder_eq_some ops t [] assigns hassigns
  have hvalues : (f.expand assigns).evaluate ops t [] = f.evaluate ops t all :=
    evaluate_subst (evaluate_expanded hall) f
  change (f.expand assigns).evaluate ops t [] = _
  rw [hvalues, evaluateWith, hall]
  rfl

end Expansion

/-! Assignments that are used -/

/-- The assignments that matter for a function: those that it refers to, and those that they refer
to. -/
inductive Uses (assigns : List Function) (f : Function) : Nat → Prop
  | direct {index : Nat} (mentioned : index ∈ f.refs) : Uses assigns f index
  | through {index between : Nat} {g : Function} (used : Uses assigns f between)
      (defined : assigns[between]? = some g) (mentioned : index ∈ g.refs) : Uses assigns f index

/-- Where assignments refer backwards, what a function uses is below what it refers to. -/
theorem Uses.lt {assigns : List Function} {f : Function} {i n : Nat} (h : Uses assigns f i)
    (hassigns : inOrder 0 assigns = true) (hf : f.refsBelow n = true) : i < n := by
  induction h with
  | direct mentioned => exact f.refsBelow_iff.1 hf _ mentioned
  | through _ defined mentioned ih =>
      have hlt := lt_of_inOrder hassigns defined _ mentioned
      omega

/-- The expansion depends on the assignments that are used only. -/
theorem expand_congr {assigns others : List Function} {f : Function}
    (h : ∀ i, Uses assigns f i → others[i]? = assigns[i]?) :
    f.expand others = f.expand assigns := by
  have hexpanded : ∀ i, Uses assigns f i → expanded others i = expanded assigns i := by
    intro i
    induction i using Nat.strongRecOn with
    | _ i ih =>
        intro hused
        cases hg : assigns[i]? with
        | none => rw [expanded_of_none hg, expanded_of_none ((h i hused).trans hg)]
        | some g =>
            rw [expanded_of_some hg, expanded_of_some ((h i hused).trans hg)]
            refine subst_congr g fun j hj => ?_
            split
            · exact ih j ‹_› (.through hused hg hj)
            · rfl
  exact subst_congr f fun i hi => hexpanded i (.direct hi)

/-- Evaluating each assignment once, in order, gives the value that the function has when every
reference in it is replaced, again and again, by the assignment that it refers to. No references are
left then. So the value depends on the assignments that are used only. -/
theorem evaluateWith_eq_expand {assigns : List Function} (hassigns : inOrder 0 assigns = true)
    {f : Function} (hf : f.refsBelow assigns.length = true) {α : Type} (ops : Arithmetic α)
    (t : α) :
    ∃ v, f.evaluateWith ops assigns t = some v ∧
      (f.expand assigns).evaluateWith ops [] t = some v ∧ (f.expand assigns).refs = [] ∧
      ∀ others, inOrder 0 others = true → (∀ i, Uses assigns f i → others[i]? = assigns[i]?) →
        f.evaluateWith ops others t = some v := by
  obtain ⟨v, hv⟩ := Option.isSome_iff_exists.1 (evaluateWith_isSome ops t hassigns hf)
  have hexpand : (f.expand assigns).evaluateWith ops [] t = some v :=
    (evaluateWith_expand_of_inOrder hassigns f).trans hv
  refine ⟨v, hv, hexpand, refs_expand hassigns hf, fun others hothers hsame => ?_⟩
  rw [← evaluateWith_expand_of_inOrder hothers, expand_congr hsame]
  exact hexpand

theorem evaluateWith_eq_expand_doubled :
    ∃ v, (Function.ref 1).evaluateWith .double
        [.neg .parameter, .sum [(.plus, .ref 0), (.minus, .ref 0)], .ref 1] 0.5 = some v ∧
      (Function.sum [(.plus, .neg .parameter), (.minus, .neg .parameter)]).evaluateWith
        .double [] 0.5 = some v ∧
      (Function.ref 1).evaluateWith .double
        [.neg .parameter, .sum [(.plus, .ref 0), (.minus, .ref 0)], .parameter] 0.5 = some v := by
  have hassigns : inOrder 0
      [.neg .parameter, .sum [(.plus, .ref 0), (.minus, .ref 0)], .ref 1] = true := by
    decide
  obtain ⟨v, hv, hexpand, -, hothers⟩ :=
    evaluateWith_eq_expand hassigns (f := .ref 1) (by decide) .double 0.5
  refine ⟨v, hv, ?_, hothers _ (by decide) ?_⟩
  · have hfirst := @expand_ref _ hassigns 0 _ rfl
    rw [expand_ref hassigns rfl, expand, subst, substTerms, substTerms, substTerms] at hexpand
    change (Function.ref 0).subst _ = _ at hfirst
    rw [hfirst] at hexpand
    exact hexpand
  · intro i hi
    have hlt : i < 2 := hi.lt hassigns (by decide)
    match i, hlt with
    | 0, _ => rfl
    | 1, _ => rfl

end FlightCurve.Function

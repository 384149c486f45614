import FlightCurve.CompileError
import FlightCurve.Function
import FlightCurve.Number.Decimal
import FlightCurve.Outcome
import FlightCurve.Scope
import FlightCurve.Tree

/-!
From parse trees to functions. Names are resolved against a scope that grows with the assignments,
chains of one operand vanish, and the first thing in the text that has no meaning is reported.

The main facts are that a compiled function refers only to indices that its scope has given out, and
that each of the compiled assignments refers only to the ones before it.
-/

namespace FlightCurve

namespace Function

/-- Joins the operands of a chain. A single operand is left as it is. -/
def ofChain : (c : Chain) → Function → List (c.Op × Function) → Function
  | _, first, [] => first
  | .sum, first, rest => .sum ((.plus, first) :: rest)
  | .product, first, rest => .product ((.times, first) :: rest)
  | .power, first, rest => .power (first :: rest.map (·.2))

/-- A name that stands for a value: a constant, the parameter or an assignment. -/
def ofName (scope : Scope) (name : Placed String) : Except (Placed Cause) Function :=
  match constant? name.value with
  | some value => .ok (.const value)
  | none =>
      match scope.visible? name.value with
      | some (some index) => .ok (.ref index)
      | some none => .ok .parameter
      | none => .error ⟨.unknownVariable name.value, name.position⟩

mutual

/-- The function that a tree denotes, or the first word in it without a meaning. -/
def ofTree (scope : Scope) {r : Rule} : Tree r → Except (Placed Cause) Function
  | @Tree.chain c first rest => do
      let f ← ofTree scope first
      let fs ← ofTail scope rest
      .ok (ofChain c f fs)
  | .signed negated operand => do
      let f ← ofTree scope operand
      .ok (if negated then .neg f else f)
  | .callOne name argument =>
      match UnaryFn.ofName? name.value with
      | none => .error ⟨.unknownFunction .one name.value, name.position⟩
      | some fn => do
          let f ← ofTree scope argument
          .ok (.unary fn f)
  | .callTwo name first second =>
      match BinaryFn.ofName? name.value with
      | none => .error ⟨.unknownFunction .two name.value, name.position⟩
      | some fn => do
          let f ← ofTree scope first
          let g ← ofTree scope second
          .ok (.binary fn f g)
  | .plain primary => ofTree scope primary
  | .group inner => ofTree scope inner
  | .variable name => ofName scope name
  | .number literal => .ok (.const (Decimal.readLiteral literal.value.toList))

def ofTail (scope : Scope) {c : Chain} : Tail c → Except (Placed Cause) (List (c.Op × Function))
  | .done => .ok []
  | .step op operand rest => do
      let f ← ofTree scope operand
      let fs ← ofTail scope rest
      .ok ((op.value, f) :: fs)

end

/-- The function of an assignment and the scope after it. The target must be new, and the value is
compiled while the target is hidden. -/
def ofAssignment (scope : Scope) (a : Assignment) : Except (Placed Cause) (Function × Scope) :=
  if scope.isBound a.target.value then
    .error ⟨.alreadyDefined a.target.value, a.target.position⟩
  else if (constant? a.target.value).isSome then
    .error ⟨.constantTarget a.target.value, a.target.position⟩
  else do
    let f ← ofTree (scope.define a.target.value) a.value
    .ok (f, (scope.define a.target.value).settle)

/-- The functions of assignments in order, and the scope after the last of them. -/
def ofAssignments (scope : Scope) : List Assignment → Except (Placed Cause) (List Function × Scope)
  | [] => .ok ([], scope)
  | a :: rest => do
      let (f, next) ← ofAssignment scope a
      let (fs, last) ← ofAssignments next rest
      .ok (f :: fs, last)

/-! References of compiled functions -/

theorem refsBelowAll_of_forall {n : Nat} {fs : List Function}
    (h : ∀ f ∈ fs, f.refsBelow n = true) : refsBelowAll n fs = true := by
  induction fs with
  | nil => rfl
  | cons f fs ih =>
      simp only [refsBelowAll, Bool.and_eq_true]
      exact ⟨h f (by simp), ih fun q hq => h q (by simp [hq])⟩

theorem refsBelowTerms_of_forall {n : Nat} {fs : List (AddOp × Function)}
    (h : ∀ p ∈ fs, p.2.refsBelow n = true) : refsBelowTerms n fs = true := by
  induction fs with
  | nil => rfl
  | cons p fs ih =>
      simp only [refsBelowTerms, Bool.and_eq_true]
      exact ⟨h p (by simp), ih fun q hq => h q (by simp [hq])⟩

theorem refsBelowFactors_of_forall {n : Nat} {fs : List (MulOp × Function)}
    (h : ∀ p ∈ fs, p.2.refsBelow n = true) : refsBelowFactors n fs = true := by
  induction fs with
  | nil => rfl
  | cons p fs ih =>
      simp only [refsBelowFactors, Bool.and_eq_true]
      exact ⟨h p (by simp), ih fun q hq => h q (by simp [hq])⟩

theorem refsBelow_ofChain {n : Nat} (c : Chain) {f : Function} {fs : List (c.Op × Function)}
    (hf : f.refsBelow n = true) (hfs : ∀ p ∈ fs, p.2.refsBelow n = true) :
    (ofChain c f fs).refsBelow n = true := by
  cases fs with
  | nil => cases c <;> exact hf
  | cons p fs =>
      cases c with
      | sum =>
          refine refsBelowTerms_of_forall fun q hq => ?_
          rcases List.mem_cons.1 hq with rfl | hq
          · exact hf
          · exact hfs q hq
      | product =>
          refine refsBelowFactors_of_forall fun q hq => ?_
          rcases List.mem_cons.1 hq with rfl | hq
          · exact hf
          · exact hfs q hq
      | power =>
          refine refsBelowAll_of_forall fun g hg => ?_
          rcases List.mem_cons.1 hg with rfl | hg
          · exact hf
          · obtain ⟨q, hq, rfl⟩ := List.mem_map.1 hg
            exact hfs q hq

theorem refsBelow_ofName {n : Nat} {scope : Scope} {name : Placed String} {f : Function}
    (hn : ∀ name index, scope.visible? name = some (some index) → index < n)
    (h : ofName scope name = .ok f) : f.refsBelow n = true := by
  unfold ofName at h
  split at h
  · cases h
    rfl
  · split at h
    · rename_i index hi
      cases h
      simpa [refsBelow] using hn _ _ hi
    · cases h
      rfl
    · cases h

mutual

theorem refsBelow_ofTree {n : Nat} {scope : Scope}
    (hn : ∀ name index, scope.visible? name = some (some index) → index < n)
    {r : Rule} (tree : Tree r) {f : Function} (h : ofTree scope tree = .ok f) :
    f.refsBelow n = true := by
  match tree, h with
  | .chain first rest, h =>
      simp only [ofTree] at h
      obtain ⟨g, hg, h⟩ := Outcome.bind_eq_ok_iff.1 h
      obtain ⟨gs, hgs, h⟩ := Outcome.bind_eq_ok_iff.1 h
      cases h
      exact refsBelow_ofChain _ (refsBelow_ofTree hn first hg) (refsBelow_ofTail hn rest hgs)
  | .signed negated operand, h =>
      simp only [ofTree] at h
      obtain ⟨g, hg, h⟩ := Outcome.bind_eq_ok_iff.1 h
      have := refsBelow_ofTree hn operand hg
      cases h
      cases negated <;> simpa [refsBelow] using this
  | .callOne name argument, h =>
      simp only [ofTree] at h
      split at h
      · cases h
      · obtain ⟨g, hg, h⟩ := Outcome.bind_eq_ok_iff.1 h
        cases h
        simpa [refsBelow] using refsBelow_ofTree hn argument hg
  | .callTwo name first second, h =>
      simp only [ofTree] at h
      split at h
      · cases h
      · obtain ⟨g, hg, h⟩ := Outcome.bind_eq_ok_iff.1 h
        obtain ⟨g', hg', h⟩ := Outcome.bind_eq_ok_iff.1 h
        cases h
        simp [refsBelow, refsBelow_ofTree hn first hg, refsBelow_ofTree hn second hg']
  | .plain primary, h => exact refsBelow_ofTree hn primary (by simpa only [ofTree] using h)
  | .group inner, h => exact refsBelow_ofTree hn inner (by simpa only [ofTree] using h)
  | .variable name, h => exact refsBelow_ofName hn (by simpa only [ofTree] using h)
  | .number literal, h =>
      simp only [ofTree] at h
      cases h
      rfl

theorem refsBelow_ofTail {n : Nat} {scope : Scope}
    (hn : ∀ name index, scope.visible? name = some (some index) → index < n)
    {c : Chain} (tail : Tail c) {fs : List (c.Op × Function)} (h : ofTail scope tail = .ok fs) :
    ∀ p ∈ fs, p.2.refsBelow n = true := by
  match tail, h with
  | .done, h =>
      cases h
      simp
  | .step op operand rest, h =>
      simp only [ofTail] at h
      obtain ⟨g, hg, h⟩ := Outcome.bind_eq_ok_iff.1 h
      obtain ⟨gs, hgs, h⟩ := Outcome.bind_eq_ok_iff.1 h
      cases h
      intro p hp
      rcases List.mem_cons.1 hp with rfl | hp
      · exact refsBelow_ofTree hn operand hg
      · exact refsBelow_ofTail hn rest hgs p hp

end

theorem ofAssignment_eq_ok {scope next : Scope} {a : Assignment} {f : Function}
    (hs : scope.Bounded) (h : ofAssignment scope a = .ok (f, next)) :
    f.refsBelow scope.count = true ∧ next.Bounded ∧ next.count = scope.count + 1 := by
  unfold ofAssignment at h
  split at h
  · cases h
  · split at h
    · cases h
    · obtain ⟨g, hg, h⟩ := Outcome.bind_eq_ok_iff.1 h
      cases h
      exact ⟨refsBelow_ofTree (hs.visible_define _) a.value hg, (hs.define _).settle, rfl⟩

/-- Compiled assignments refer backwards, and the scope after them has given out one index for
each. -/
theorem ofAssignments_eq_ok {scope last : Scope} {as : List Assignment} {fs : List Function}
    (hs : scope.Bounded) (h : ofAssignments scope as = .ok (fs, last)) :
    inOrder scope.count fs = true ∧ last.Bounded ∧ last.count = scope.count + fs.length := by
  induction as generalizing scope fs with
  | nil =>
      cases h
      exact ⟨rfl, hs, rfl⟩
  | cons a as ih =>
      simp only [ofAssignments] at h
      obtain ⟨⟨f, next⟩, hf, h⟩ := Outcome.bind_eq_ok_iff.1 h
      obtain ⟨⟨gs, last'⟩, hgs, h⟩ := Outcome.bind_eq_ok_iff.1 h
      cases h
      obtain ⟨hrefs, hb, hcount⟩ := ofAssignment_eq_ok hs hf
      obtain ⟨ho, hl, hc⟩ := ih hb hgs
      refine ⟨?_, hl, ?_⟩
      · simp only [inOrder, Bool.and_eq_true]
        exact ⟨hrefs, hcount ▸ ho⟩
      · have hlast : last'.count = next.count + gs.length := hc
        change last'.count = scope.count + (gs.length + 1)
        omega

end Function

end FlightCurve

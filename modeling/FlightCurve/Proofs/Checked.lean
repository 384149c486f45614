import FlightCurve.Curve

/-!
Giving trees a meaning with every check in place. Here an operator is looked up by its text, an
index by its name, and a node is built by a constructor that may refuse it; each of these can fail
on its own.

The main fact is that none of them ever does: the outcome is that without the checks.
-/

namespace FlightCurve

/-- Why checked compilation ends without a result: the source was rejected; a node was refused, a
key missing or an index out of range; or a loop went on forever. -/
inductive Failure (ε : Type)
  | rejected (e : ε)
  | invalid
  | missing
  | outOfRange
  | stalled

namespace Failure

variable {ε ε' : Type}

def map (g : ε → ε') : Failure ε → Failure ε'
  | rejected e => rejected (g e)
  | invalid => invalid
  | missing => missing
  | outOfRange => outOfRange
  | stalled => stalled

/-- The value, or the failure where there is none. -/
def check {α : Type} (failure : Failure ε) : Option α → Except (Failure ε) α
  | some a => .ok a
  | none => .error failure

end Failure

/-! Chains -/

namespace Chain

/-- The operator of a chain with the given text. -/
def ofText? : (c : Chain) → String → Option c.Op
  | .sum, text => AddOp.ofText? text
  | .product, text => MulOp.ofText? text
  | .power, _ => some ()

/-- The operator that the first operand of a chain is tagged with. -/
def firstOp : (c : Chain) → c.Op
  | .sum => .plus
  | .product => .times
  | .power => ()

/-- The node of a chain, if it has enough members. -/
def node? : (c : Chain) → List (c.Op × Function) → Option Function
  | .sum, terms => Function.sum? terms
  | .product, factors => Function.product? factors
  | .power, bases => Function.power? (bases.map (·.2))

theorem ofText?_opText (c : Chain) (op : c.Op) : c.ofText? (c.opText op) = some op := by
  cases c <;> cases op <;> rfl

theorem node?_cons_cons (c : Chain) (f : Function) (p : c.Op × Function)
    (fs : List (c.Op × Function)) :
    c.node? ((c.firstOp, f) :: p :: fs) = some (Function.ofChain c f (p :: fs)) := by
  have htwo : 2 ≤ fs.length + 1 + 1 := by omega
  cases c with
  | sum => exact Function.sum?_of_two_le htwo
  | product => exact Function.product?_of_two_le htwo
  | power =>
      refine Function.power?_of_two_le ?_
      rw [List.length_map]
      exact htwo

end Chain

namespace Tail

/-- The texts of the operators of a chain. -/
def opTexts {c : Chain} : Tail c → List String
  | .done => []
  | .step op _ rest => c.opText op.value :: rest.opTexts

def ops {c : Chain} : Tail c → List c.Op
  | .done => []
  | .step op _ rest => op.value :: rest.ops

end Tail

/-! Checked compilation -/

namespace Checked

/-- The operators of a chain, each looked up by its text. -/
def operators (c : Chain) : List String → Except (Failure (Placed Cause)) (List c.Op)
  | [] => .ok []
  | text :: rest => do
      let op ← Failure.missing.check (c.ofText? text)
      let ops ← operators c rest
      .ok (op :: ops)

def ofName (scope : Scope) (name : Placed String) : Except (Failure (Placed Cause)) Function :=
  match constant? name.value with
  | some value => .ok (.const value)
  | none =>
      if scope.isVisible name.value then (do
        match ← Failure.missing.check (scope.index? name.value) with
        | none => .ok .parameter
        | some index => Failure.invalid.check (Function.ref? index))
      else .error (.rejected ⟨.unknownVariable name.value, name.position⟩)

mutual

def ofTree (scope : Scope) {r : Rule} : Tree r → Except (Failure (Placed Cause)) Function
  | @Tree.chain c first rest =>
      if rest.opTexts.isEmpty then ofTree scope first
      else (do
        let ops ← operators c rest.opTexts
        let f ← ofTree scope first
        let fs ← ofOperands scope rest
        Failure.invalid.check (c.node? ((c.firstOp :: ops).zip (f :: fs))))
  | .signed negated operand => do
      let f ← ofTree scope operand
      .ok (if negated then .neg f else f)
  | .callOne name argument =>
      match UnaryFn.ofName? name.value with
      | none => .error (.rejected ⟨.unknownFunction .one name.value, name.position⟩)
      | some fn => do
          let f ← ofTree scope argument
          .ok (.unary fn f)
  | .callTwo name first second =>
      match BinaryFn.ofName? name.value with
      | none => .error (.rejected ⟨.unknownFunction .two name.value, name.position⟩)
      | some fn => do
          let f ← ofTree scope first
          let g ← ofTree scope second
          .ok (.binary fn f g)
  | .plain primary => ofTree scope primary
  | .group inner => ofTree scope inner
  | .variable name => ofName scope name
  | .number literal => .ok (.const (Decimal.readLiteral literal.value.toList))

def ofOperands (scope : Scope) {c : Chain} :
    Tail c → Except (Failure (Placed Cause)) (List Function)
  | .done => .ok []
  | .step _ operand rest => do
      let f ← ofTree scope operand
      let fs ← ofOperands scope rest
      .ok (f :: fs)

end

def ofAssignment (scope : Scope) (a : Assignment) :
    Except (Failure (Placed Cause)) (Function × Scope) :=
  if scope.isBound a.target.value then
    .error (.rejected ⟨.alreadyDefined a.target.value, a.target.position⟩)
  else if (constant? a.target.value).isSome then
    .error (.rejected ⟨.constantTarget a.target.value, a.target.position⟩)
  else do
    let f ← ofTree (scope.define a.target.value) a.value
    .ok (f, (scope.define a.target.value).settle)

def ofAssignments (scope : Scope) :
    List Assignment → Except (Failure (Placed Cause)) (List Function × Scope)
  | [] => .ok ([], scope)
  | a :: rest => do
      let (f, next) ← ofAssignment scope a
      let (fs, last) ← ofAssignments next rest
      .ok (f :: fs, last)

/-! No check fails -/

theorem operators_opTexts {c : Chain} (tail : Tail c) :
    operators c tail.opTexts = .ok tail.ops := by
  match tail with
  | .done => rfl
  | .step op operand rest =>
      rw [Tail.opTexts, operators, c.ofText?_opText, operators_opTexts rest]
      rfl

theorem ops_of_ofTail {scope : Scope} {c : Chain} {tail : Tail c} {fs : List (c.Op × Function)}
    (h : Function.ofTail scope tail = .ok fs) : fs.map (·.1) = tail.ops := by
  cases tail with
  | done =>
      cases h
      rfl
  | step op operand rest =>
      simp only [Function.ofTail] at h
      obtain ⟨g, _, h⟩ := Outcome.bind_eq_ok_iff.1 h
      obtain ⟨gs, hgs, h⟩ := Outcome.bind_eq_ok_iff.1 h
      cases h
      rw [List.map_cons, ops_of_ofTail hgs]
      rfl

theorem ofName_eq (scope : Scope) (name : Placed String) :
    ofName scope name = (Function.ofName scope name).mapError .rejected := by
  unfold ofName Function.ofName Scope.visible?
  cases constant? name.value with
  | some value => rfl
  | none =>
      -- a visible name is bound, so it has an index
      cases hvisible : scope.isVisible name.value with
      | false => rfl
      | true =>
          cases hindex : scope.index? name.value with
          | none =>
              rw [Scope.isVisible, Scope.isBound, hindex] at hvisible
              cases hvisible
          | some index =>
              cases index with
              | none => rfl
              | some index =>
                  change Failure.invalid.check (Function.ref? index) = _
                  rw [Function.ref?_natCast]
                  rfl

mutual

theorem ofTree_eq (scope : Scope) {r : Rule} (tree : Tree r) :
    ofTree scope tree = (Function.ofTree scope tree).mapError .rejected := by
  match tree with
  | @Tree.chain c first .done =>
      simp only [ofTree, Function.ofTree, Function.ofTail]
      refine (ofTree_eq scope first).trans ?_
      cases Function.ofTree scope first with
      | error fault => rfl
      | ok f => cases c <;> rfl
  | @Tree.chain c first (.step op operand rest) =>
      simp only [ofTree, Function.ofTree]
      rw [if_neg (by simp [Tail.opTexts]), operators_opTexts, ofTree_eq scope first,
        ofOperands_eq scope (.step op operand rest)]
      cases Function.ofTree scope first with
      | error fault => rfl
      | ok f =>
          cases htail : Function.ofTail scope (.step op operand rest) with
          | error fault => rfl
          | ok fs =>
              -- the operators that were looked up pair with the operands as the tail has them
              have hops := ops_of_ofTail htail
              obtain ⟨p, more, rfl, _, _⟩ := List.map_eq_cons_iff.1 hops
              change Failure.invalid.check (c.node?
                ((c.firstOp, f) :: (Tail.step op operand rest).ops.zip ((p :: more).map (·.2)))) = _
              rw [← List.zip_of_prod hops rfl, c.node?_cons_cons]
              rfl
  | .signed negated operand =>
      simp only [ofTree, Function.ofTree]
      rw [ofTree_eq scope operand, Outcome.mapError_bind]
      rfl
  | .callOne name argument =>
      simp only [ofTree, Function.ofTree]
      cases UnaryFn.ofName? name.value with
      | none => rfl
      | some fn =>
          simp only
          rw [ofTree_eq scope argument, Outcome.mapError_bind]
          rfl
  | .callTwo name first second =>
      simp only [ofTree, Function.ofTree]
      cases BinaryFn.ofName? name.value with
      | none => rfl
      | some fn =>
          simp only
          rw [ofTree_eq scope first, ofTree_eq scope second, Outcome.mapError_bind]
          cases Function.ofTree scope first with
          | error fault => rfl
          | ok f => cases Function.ofTree scope second <;> rfl
  | .plain primary =>
      simp only [ofTree, Function.ofTree]
      exact ofTree_eq scope primary
  | .group inner =>
      simp only [ofTree, Function.ofTree]
      exact ofTree_eq scope inner
  | .variable name =>
      simp only [ofTree, Function.ofTree]
      exact ofName_eq scope name
  | .number literal => rfl

theorem ofOperands_eq (scope : Scope) {c : Chain} (tail : Tail c) :
    ofOperands scope tail =
      ((Function.ofTail scope tail).map fun fs => fs.map (·.2)).mapError .rejected := by
  match tail with
  | .done => rfl
  | .step op operand rest =>
      simp only [ofOperands, Function.ofTail]
      rw [ofTree_eq scope operand, ofOperands_eq scope rest]
      cases Function.ofTree scope operand with
      | error fault => rfl
      | ok f => cases Function.ofTail scope rest <;> rfl

end

theorem ofAssignment_eq (scope : Scope) (a : Assignment) :
    ofAssignment scope a = (Function.ofAssignment scope a).mapError .rejected := by
  unfold ofAssignment Function.ofAssignment
  split
  · rfl
  · split
    · rfl
    · rw [ofTree_eq, Outcome.mapError_bind]
      rfl

theorem ofAssignments_eq (scope : Scope) (as : List Assignment) :
    ofAssignments scope as = (Function.ofAssignments scope as).mapError .rejected := by
  induction as generalizing scope with
  | nil => rfl
  | cons a as ih =>
      rw [ofAssignments, Function.ofAssignments, ofAssignment_eq, Outcome.mapError_bind]
      cases Function.ofAssignment scope a with
      | error fault => rfl
      | ok r =>
          obtain ⟨f, next⟩ := r
          change (ofAssignments next as >>= _) = (Function.ofAssignments next as >>= _).mapError _
          rw [ih, Outcome.mapError_bind]
          rfl

end Checked

end FlightCurve

import FlightCurve.Proofs.StatusLine
import FlightCurve.Proofs.Submission

/-!
Submissions compiled in one session. A session holds the scope, which all three compilations read
and change in place, and the records that were made so far; a step that fails leaves the session as
it stands at that moment.

The main statement says what the parts of a submission have to do with one another: the first one
that is rejected decides, and what each of the others compiles to does not depend on its neighbours.
It rests on what a step leaves behind. Compiling a curve expression leaves the session as it was,
whether the expression is accepted or rejected, so that nothing passes from one coordinate to the
other.
-/

namespace FlightCurve

/-- What the compilations of a submission share. -/
structure Session where
  scope : Scope
  log : List LogRecord

namespace Session

/-- A step of a session: it reads and changes the session, and may fail on the way. -/
abbrev Step := EStateM CompileError Session

def onScope (change : Scope → Scope) : Step Unit :=
  modify fun session => { session with scope := change session.scope }

def record (records : List LogRecord) : Step Unit :=
  modify fun session => { session with log := session.log ++ records }

/-! Compiling in a session -/

section Compiling

variable (source : String)

def ofName (name : Placed String) : Step Function := do
  match constant? name.value with
  | some value => return .const value
  | none =>
      match (← get).scope.visible? name.value with
      | some (some index) => return .ref index
      | some none => return .parameter
      | none => throw (.inSource source ⟨.unknownVariable name.value, name.position⟩)

mutual

def ofTree {r : Rule} : Tree r → Step Function
  | @Tree.chain c first rest => do
      let f ← ofTree first
      let fs ← ofTail rest
      return Function.ofChain c f fs
  | .signed negated operand => do
      let f ← ofTree operand
      return if negated then .neg f else f
  | .callOne name argument =>
      match UnaryFn.ofName? name.value with
      | none => throw (.inSource source ⟨.unknownFunction .one name.value, name.position⟩)
      | some fn => do
          let f ← ofTree argument
          return .unary fn f
  | .callTwo name first second =>
      match BinaryFn.ofName? name.value with
      | none => throw (.inSource source ⟨.unknownFunction .two name.value, name.position⟩)
      | some fn => do
          let f ← ofTree first
          let g ← ofTree second
          return .binary fn f g
  | .plain primary => ofTree primary
  | .group inner => ofTree inner
  | .variable name => ofName source name
  | .number literal => return .const (Decimal.readLiteral literal.value.toList)

def ofTail {c : Chain} : Tail c → Step (List (c.Op × Function))
  | .done => return []
  | .step op operand rest => do
      let f ← ofTree operand
      let fs ← ofTail rest
      return (op.value, f) :: fs

end

/-- The target is hidden while the value is compiled, and shown again however that ends. -/
def ofAssignment (a : Assignment) : Step Function := do
  if (← get).scope.isBound a.target.value then
    throw (.inSource source ⟨.alreadyDefined a.target.value, a.target.position⟩)
  else if (constant? a.target.value).isSome then
    throw (.inSource source ⟨.constantTarget a.target.value, a.target.position⟩)
  else do
    onScope (·.define a.target.value)
    try
      ofTree source a.value
    finally
      onScope (·.settle)

def ofAssignments : List Assignment → Step (List Function)
  | [] => return []
  | a :: rest => do
      let f ← ofAssignment source a
      let fs ← ofAssignments rest
      return f :: fs

/-- Compiles a where clause in a new scope, which the session keeps. -/
def compileAssignments : Step (List Function) := do
  let as ← ofExcept (parseAssignments source)
  onScope fun _ => .initial
  ofAssignments source as

def compileExpr (axis : String) : Step Function := do
  let tree ← ofExcept (parseExpr source (some axis))
  ofTree source tree

end Compiling

/-- A step for one part of a submission. An error is tagged with the part and recorded before it is
passed on. -/
def inPart {α : Type} (part : String) (step : Step α) : Step α := do
  try
    step
  catch e =>
    let e := e.withPart part
    record (Submission.rejectionLog e)
    throw e

def compile (s : Sources) : Step Curve.Parts := do
  record [⟨.debug, "Compiling curve x=" ++ Text.quoted s.x ++ " y=" ++ Text.quoted s.y ++
    " where=" ++ Text.quoted s.clause⟩]
  let assigns ← inPart wherePart (compileAssignments s.clause)
  let x ← inPart xPart (compileExpr s.x "x")
  let y ← inPart yPart (compileExpr s.y "y")
  record [⟨.debug, "Compiled curve " ++ ("(" ++ x.text ++ ", " ++ y.text ++ ")") ++ " with " ++
    toString assigns.length ++ " assignment(s)"⟩]
  return ⟨x, y, assigns, (← get).scope.names, s⟩

/-- What a submission leaves, and the records of its session. -/
def submit (s : Sources) : Checked.Result × List LogRecord :=
  match (compile s).run ⟨.initial, []⟩ with
  | .ok parts session => (⟨some parts, none, successStatus⟩, session.log)
  | .error e session => (⟨none, some e, e.describe⟩, session.log)

/-! What a step leaves behind -/

/-- The result of a step that comes to an outcome and leaves the session behind. -/
def leaving {α : Type} (session : Session) :
    Except CompileError α → EStateM.Result CompileError Session α
  | .ok a => .ok a session
  | .error e => .error e session

/-- The step comes to the outcome and leaves the session as it was. -/
def Keeps {α : Type} (step : Step α) (session : Session) (outcome : Except CompileError α) : Prop :=
  step session = leaving session outcome

section Sequences

variable {α β : Type} {step : Step α} {next : α → Step β} {session after : Session}

theorem bind_of_ok {a : α} (h : step session = .ok a after) :
    (step >>= next) session = next a after := by
  change EStateM.bind step next session = _
  rw [EStateM.bind, h]

theorem bind_of_error {e : CompileError} (h : step session = .error e after) :
    (step >>= next) session = .error e after := by
  change EStateM.bind step next session = _
  rw [EStateM.bind, h]

theorem inPart_of_ok {a : α} (h : step session = .ok a after) (part : String) :
    inPart part step session = .ok a after := by
  change EStateM.tryCatch step _ session = _
  rw [EStateM.tryCatch, h]

/-- An error of a part is recorded under the name of the part. -/
theorem inPart_of_error {e : CompileError} (h : step session = .error e after) (part : String) :
    inPart part step session = .error (e.withPart part)
      ⟨after.scope, after.log ++ Submission.rejectionLog (e.withPart part)⟩ := by
  change EStateM.tryCatch step _ session = _
  rw [EStateM.tryCatch, h]
  rfl

end Sequences

theorem Keeps.bind {α β : Type} {step : Step α} {next : α → Step β} {session : Session}
    {outcome : Except CompileError α} {after : α → Except CompileError β}
    (h : Keeps step session outcome) (hnext : ∀ a, Keeps (next a) session (after a)) :
    Keeps (step >>= next) session (outcome >>= after) := by
  cases outcome with
  | error e => exact bind_of_error h
  | ok a => exact (bind_of_ok h).trans (hnext a)

theorem keeps_ofExcept {α : Type} (session : Session) (outcome : Except CompileError α) :
    Keeps (ofExcept outcome) session outcome := by
  cases outcome <;> rfl

section Compiling

variable (source : String) (session : Session)

theorem keeps_ofName (name : Placed String) : Keeps (ofName source name) session
    ((Function.ofName session.scope name).mapError (.inSource source)) := by
  unfold ofName Function.ofName
  cases constant? name.value with
  | some value => rfl
  | none =>
      change EStateM.bind get _ session = _
      rw [EStateM.bind]
      change (match session.scope.visible? name.value with
        | some (some index) => pure (Function.ref index)
        | some none => pure Function.parameter
        | none => throw _ : Step Function) session = _
      cases session.scope.visible? name.value with
      | none => rfl
      | some index => cases index <;> rfl

mutual

/-- Compiling a tree changes nothing, also where it fails. -/
theorem keeps_ofTree {r : Rule} (tree : Tree r) : Keeps (ofTree source tree) session
    ((Function.ofTree session.scope tree).mapError (.inSource source)) := by
  match tree with
  | .chain first rest =>
      rw [ofTree, Function.ofTree, Outcome.mapError_bind]
      refine (keeps_ofTree first).bind fun f => ?_
      rw [Outcome.mapError_bind]
      exact (keeps_ofTail rest).bind fun fs => rfl
  | .signed negated operand =>
      rw [ofTree, Function.ofTree, Outcome.mapError_bind]
      exact (keeps_ofTree operand).bind fun f => rfl
  | .callOne name argument =>
      rw [ofTree, Function.ofTree]
      cases UnaryFn.ofName? name.value with
      | none => rfl
      | some fn =>
          dsimp only
          rw [Outcome.mapError_bind]
          exact (keeps_ofTree argument).bind fun f => rfl
  | .callTwo name first second =>
      rw [ofTree, Function.ofTree]
      cases BinaryFn.ofName? name.value with
      | none => rfl
      | some fn =>
          dsimp only
          rw [Outcome.mapError_bind]
          refine (keeps_ofTree first).bind fun f => ?_
          rw [Outcome.mapError_bind]
          exact (keeps_ofTree second).bind fun g => rfl
  | .plain primary =>
      rw [ofTree, Function.ofTree]
      exact keeps_ofTree primary
  | .group inner =>
      rw [ofTree, Function.ofTree]
      exact keeps_ofTree inner
  | .variable name =>
      rw [ofTree, Function.ofTree]
      exact keeps_ofName source session name
  | .number literal =>
      rw [ofTree, Function.ofTree]
      rfl

theorem keeps_ofTail {c : Chain} (tail : Tail c) : Keeps (ofTail source tail) session
    ((Function.ofTail session.scope tail).mapError (.inSource source)) := by
  match tail with
  | .done =>
      rw [ofTail, Function.ofTail]
      rfl
  | .step op operand rest =>
      rw [ofTail, Function.ofTail, Outcome.mapError_bind]
      refine (keeps_ofTree operand).bind fun f => ?_
      rw [Outcome.mapError_bind]
      exact (keeps_ofTail rest).bind fun fs => rfl

end

theorem keeps_compileExpr (axis : String) : Keeps (compileExpr source axis) session
    (FlightCurve.compileExpr source session.scope (some axis)) :=
  (keeps_ofExcept session _).bind fun tree => keeps_ofTree source session tree

end Compiling

/-- The step comes to a value and leaves its scope, or to an error, and then any scope. It records
nothing. -/
def Yields {α : Type} (step : Step α) (session : Session) :
    Except CompileError (α × Scope) → Prop
  | .ok (a, scope) => step session = .ok a { session with scope }
  | .error e => ∃ left : Scope, step session = .error e { session with scope := left }

theorem Yields.bind {α β : Type} {step : Step α} {next : α → Step β} {session : Session}
    {outcome : Except CompileError (α × Scope)}
    {after : α × Scope → Except CompileError (β × Scope)} (h : Yields step session outcome)
    (hnext : ∀ a scope, Yields (next a) { session with scope } (after (a, scope))) :
    Yields (step >>= next) session (outcome >>= after) := by
  cases outcome with
  | error e =>
      obtain ⟨left, h⟩ := h
      exact ⟨left, bind_of_error h⟩
  | ok result =>
      obtain ⟨a, scope⟩ := result
      have hbind : (step >>= next) session = next a { session with scope } := bind_of_ok h
      have hafter := hnext a scope
      change Yields (step >>= next) session (after (a, scope))
      revert hafter
      cases after (a, scope) with
      | error e => exact fun ⟨left, hleft⟩ => ⟨left, hbind.trans hleft⟩
      | ok result => exact fun hok => hbind.trans hok

/-- A change that is made at last is made after an error too. -/
theorem Keeps.settled {α : Type} {step : Step α} {session : Session}
    {outcome : Except CompileError α} (h : Keeps step session outcome) (change : Scope → Scope) :
    tryFinally step (onScope change) session =
      leaving { session with scope := change session.scope } outcome := by
  change EStateM.map Prod.fst (tryFinally' step fun _ => onScope change) session = _
  simp only [EStateM.map, tryFinally']
  rw [h]
  cases outcome <;> rfl

section Compiling

variable (source : String) (session : Session)

/-- The scope after an assignment is shown again, also where its value is rejected. -/
theorem yields_ofAssignment (a : Assignment) : Yields (ofAssignment source a) session
    ((Function.ofAssignment session.scope a).mapError (.inSource source)) := by
  have hget : ofAssignment source a session =
      (if session.scope.isBound a.target.value then
        throw (.inSource source ⟨.alreadyDefined a.target.value, a.target.position⟩)
      else if (constant? a.target.value).isSome then
        throw (.inSource source ⟨.constantTarget a.target.value, a.target.position⟩)
      else do
        onScope (·.define a.target.value)
        try
          ofTree source a.value
        finally
          onScope (·.settle) : Step Function) session := rfl
  rw [Function.ofAssignment]
  by_cases hbound : session.scope.isBound a.target.value = true
  · rw [if_pos hbound] at hget ⊢
    exact ⟨session.scope, hget⟩
  · rw [if_neg hbound] at hget ⊢
    by_cases hconstant : (constant? a.target.value).isSome = true
    · rw [if_pos hconstant] at hget ⊢
      exact ⟨session.scope, hget⟩
    · rw [if_neg hconstant] at hget ⊢
      have hvalue := keeps_ofTree source
        { session with scope := session.scope.define a.target.value } a.value
      replace hget := hget.trans (hvalue.settled (·.settle))
      cases hf : Function.ofTree (session.scope.define a.target.value) a.value with
      | error fault =>
          rw [hf] at hget
          exact ⟨_, hget⟩
      | ok f =>
          rw [hf] at hget
          exact hget

theorem yields_ofAssignments (as : List Assignment) : Yields (ofAssignments source as) session
    ((Function.ofAssignments session.scope as).mapError (.inSource source)) := by
  induction as generalizing session with
  | nil => rfl
  | cons a as ih =>
      rw [ofAssignments, Function.ofAssignments, Outcome.mapError_bind]
      refine (yields_ofAssignment source session a).bind fun f scope => ?_
      dsimp only
      rw [Outcome.mapError_bind]
      exact (ih { session with scope }).bind fun fs last => rfl

/-- A where clause is compiled in a new scope, whatever the scope of the session is. -/
theorem yields_compileAssignments :
    Yields (compileAssignments source) session (FlightCurve.compileAssignments source) := by
  unfold compileAssignments FlightCurve.compileAssignments
  cases has : parseAssignments source with
  | error e => exact ⟨session.scope, rfl⟩
  | ok as => exact yields_ofAssignments source { session with scope := .initial } as

end Compiling

end Session

/-- Each source compiled on its own: the where clause, and both curve expressions in its scope. The
first rejection decides. -/
def Sources.compileParts (s : Sources) : Except CompileError Curve.Parts := do
  let (assigns, scope) ← (compileAssignments s.clause).mapError (.withPart wherePart)
  let x ← (compileExpr s.x scope (some "x")).mapError (.withPart xPart)
  let y ← (compileExpr s.y scope (some "y")).mapError (.withPart yPart)
  .ok ⟨x, y, assigns, scope.names, s⟩

theorem Sources.map_parts_compile (s : Sources) : s.compile.map Curve.parts = s.compileParts := by
  generalize hparts : s.compileParts = parts
  rw [compileParts] at hparts
  unfold Sources.compile
  split
  · rename_i e hassigns
    rw [hassigns] at hparts
    exact hparts
  · rename_i assigns scope hassigns
    rw [hassigns] at hparts
    change ((compileExpr s.x scope (some "x")).mapError _ >>= _) = parts at hparts
    split
    · rename_i e hx
      rw [hx] at hparts
      exact hparts
    · rename_i x hx
      rw [hx] at hparts
      change ((compileExpr s.y scope (some "y")).mapError _ >>= _) = parts at hparts
      split
      · rename_i e hy
        rw [hy] at hparts
        exact hparts
      · rename_i y hy
        rw [hy] at hparts
        exact hparts

namespace Session

/-- A session in which it is recorded what is compiled. -/
def opening (s : Sources) : Session :=
  ⟨.initial, [⟨.debug, "Compiling curve x=" ++ Text.quoted s.x ++ " y=" ++ Text.quoted s.y ++
    " where=" ++ Text.quoted s.clause⟩]⟩

/-- The records that an outcome adds. -/
def closing : Except CompileError Curve.Parts → List LogRecord
  | .ok parts => [⟨.debug, "Compiled curve " ++
      ("(" ++ parts.x.text ++ ", " ++ parts.y.text ++ ")") ++ " with " ++
      toString parts.assigns.length ++ " assignment(s)"⟩]
  | .error e => Submission.rejectionLog e

/-- In a session a submission comes to what its sources come to on their own. -/
theorem compile_run (s : Sources) : ∃ scope, compile s ⟨.initial, []⟩ =
    leaving ⟨scope, (opening s).log ++ closing s.compileParts⟩ s.compileParts := by
  have hopen : compile s ⟨.initial, []⟩ = (do
      let assigns ← inPart wherePart (compileAssignments s.clause)
      let x ← inPart xPart (compileExpr s.x "x")
      let y ← inPart yPart (compileExpr s.y "y")
      record [⟨.debug, "Compiled curve " ++ ("(" ++ x.text ++ ", " ++ y.text ++ ")") ++ " with " ++
        toString assigns.length ++ " assignment(s)"⟩]
      return ⟨x, y, assigns, (← get).scope.names, s⟩ : Step Curve.Parts) (opening s) := rfl
  rw [hopen, Sources.compileParts]
  have hclause := yields_compileAssignments s.clause (opening s)
  cases hassigns : FlightCurve.compileAssignments s.clause with
  | error e =>
      rw [hassigns] at hclause
      obtain ⟨left, hclause⟩ := hclause
      exact ⟨left, bind_of_error (inPart_of_error hclause wherePart)⟩
  | ok result =>
      obtain ⟨assigns, scope⟩ := result
      rw [hassigns] at hclause
      rw [bind_of_ok (inPart_of_ok hclause wherePart)]
      change ∃ left, _ = leaving ⟨left, (opening s).log ++ closing
        ((FlightCurve.compileExpr s.x scope (some "x")).mapError _ >>= _)⟩
        ((FlightCurve.compileExpr s.x scope (some "x")).mapError _ >>= _)
      have hxRun := keeps_compileExpr s.x ⟨scope, (opening s).log⟩ "x"
      cases hx : FlightCurve.compileExpr s.x scope (some "x") with
      | error e =>
          rw [hx] at hxRun
          exact ⟨scope, bind_of_error (inPart_of_error hxRun xPart)⟩
      | ok x =>
          rw [hx] at hxRun
          rw [bind_of_ok (inPart_of_ok hxRun xPart)]
          change ∃ left, _ = leaving ⟨left, (opening s).log ++ closing
            ((FlightCurve.compileExpr s.y scope (some "y")).mapError _ >>= _)⟩
            ((FlightCurve.compileExpr s.y scope (some "y")).mapError _ >>= _)
          have hyRun := keeps_compileExpr s.y ⟨scope, (opening s).log⟩ "y"
          cases hy : FlightCurve.compileExpr s.y scope (some "y") with
          | error e =>
              rw [hy] at hyRun
              exact ⟨scope, bind_of_error (inPart_of_error hyRun yPart)⟩
          | ok y =>
              rw [hy] at hyRun
              rw [bind_of_ok (inPart_of_ok hyRun yPart)]
              exact ⟨scope, rfl⟩

end Session

/-- What a submission leaves. -/
def Submission.result (s : Submission) : Checked.Result :=
  match s.outcome with
  | .ok c => ⟨some c.parts, none, s.status⟩
  | .error e => ⟨none, some e, s.status⟩

/-- One session for all parts changes neither what a submission leaves nor what it records. -/
theorem Session.submit_eq (s : Sources) :
    Session.submit s = ((Submission.submit s).result, (Submission.submit s).log) := by
  obtain ⟨scope, hrun⟩ := Session.compile_run s
  rw [← s.map_parts_compile] at hrun
  unfold Session.submit
  rw [EStateM.run, hrun]
  unfold Submission.result Submission.status Submission.log Submission.submit
  dsimp only
  cases s.compile <;> rfl

/-! Explanations of syntax errors -/

/-- If the error is a syntax error, it comes with an explanation. -/
def CompileError.IsExplained (e : CompileError) : Prop :=
  ∀ detail, e.cause = .malformed detail → ∃ text, detail = some text ∧ text ≠ ""

theorem CompileError.IsExplained.withPart {e : CompileError} (h : e.IsExplained) (part : String) :
    (e.withPart part).IsExplained := h

theorem Reason.detail_ne_empty (tok : Token) (reason : Reason) : reason.detail tok ≠ "" := by
  unfold detail
  cases reason with
  | noOperand => by_cases h : tok.kind = .eof <;> simp [h]
  | _ => simp

/-- The errors of reading are explained syntax errors. -/
theorem explained_of_read {source : String} {α : Type} {read : Scanned → Except Stuck α}
    {e : CompileError} (h : (do
        let s ← scanSource source
        (read s).mapError fun stuck => CompileError.inSource source (Stuck.fault s stuck)) =
      .error e) : e.IsExplained := by
  intro detail hdetail
  rcases Outcome.bind_eq_error_iff.1 h with hscan | ⟨s, _, hread⟩
  · obtain ⟨c, _, rfl⟩ := Outcome.mapError_eq_error_iff.1 hscan
    cases hdetail
    exact ⟨_, rfl, by simp⟩
  · obtain ⟨stuck, _, rfl⟩ := Outcome.mapError_eq_error_iff.1 hread
    cases hdetail
    exact ⟨_, rfl, stuck.reason.detail_ne_empty _⟩

/-- A name that offends is no syntax error. -/
theorem ReportsFirstOffence.explained {α : Type} {source : String}
    {outcome : Except CompileError α} {occurrences : List Occurrence}
    (h : ReportsFirstOffence source outcome occurrences) {e : CompileError}
    (he : outcome = .error e) : e.IsExplained := by
  intro detail hdetail
  obtain ⟨o, _, cause, _, _, _, rfl, hname⟩ := h.first e he
  rw [show cause = .malformed detail from hdetail] at hname
  cases hname

theorem explained_of_compileAssignments {clause : String} {e : CompileError}
    (h : compileAssignments clause = .error e) : e.IsExplained := by
  cases has : parseAssignments clause with
  | error e' =>
      rw [compileAssignments, has] at h
      cases h
      exact explained_of_read has
  | ok as => exact (compileAssignments_reportsFirstOffence has).explained h

theorem explained_of_compileExpr {source : String} {scope : Scope} (hscope : scope.Reachable)
    {axis : Option String} {e : CompileError} (h : compileExpr source scope axis = .error e) :
    e.IsExplained := by
  cases htree : parseExpr source axis with
  | error e' =>
      rw [compileExpr, htree] at h
      cases h
      exact explained_of_read htree
  | ok tree => exact (compileExpr_reportsFirstOffence htree hscope).explained h

/-! Submissions -/

namespace Sources

variable {s : Sources} {assigns : List Function} {scope : Scope} {x y : Function}
  {e : CompileError}

theorem compile_of_clause_error (hclause : compileAssignments s.clause = .error e) :
    s.compile = .error (e.withPart wherePart) := by
  rw [← Outcome.map_eq_error_iff (g := Curve.parts), map_parts_compile, compileParts, hclause]
  rfl

theorem compileParts_of_clause (hclause : compileAssignments s.clause = .ok (assigns, scope)) :
    s.compileParts = (do
      let x ← (compileExpr s.x scope (some "x")).mapError (.withPart xPart)
      let y ← (compileExpr s.y scope (some "y")).mapError (.withPart yPart)
      .ok ⟨x, y, assigns, scope.names, s⟩) := by
  rw [compileParts, hclause]
  rfl

theorem compile_of_x_error (hclause : compileAssignments s.clause = .ok (assigns, scope))
    (hx : compileExpr s.x scope (some "x") = .error e) :
    s.compile = .error (e.withPart xPart) := by
  rw [← Outcome.map_eq_error_iff (g := Curve.parts), map_parts_compile,
    compileParts_of_clause hclause, hx]
  rfl

theorem compile_of_y_error (hclause : compileAssignments s.clause = .ok (assigns, scope))
    (hx : compileExpr s.x scope (some "x") = .ok x)
    (hy : compileExpr s.y scope (some "y") = .error e) :
    s.compile = .error (e.withPart yPart) := by
  rw [← Outcome.map_eq_error_iff (g := Curve.parts), map_parts_compile,
    compileParts_of_clause hclause, hx, hy]
  rfl

theorem exists_compile (hclause : compileAssignments s.clause = .ok (assigns, scope))
    (hx : compileExpr s.x scope (some "x") = .ok x)
    (hy : compileExpr s.y scope (some "y") = .ok y) :
    ∃ c, s.compile = .ok c ∧ c.parts = ⟨x, y, assigns, scope.names, s⟩ := by
  rw [← Outcome.map_eq_ok_iff, map_parts_compile, compileParts_of_clause hclause, hx, hy]
  rfl

/-- An accepted curve is made of what its sources come to on their own. -/
theorem parts_of_compile {c : Curve} (h : s.compile = .ok c) : ∃ scope,
    compileAssignments s.clause = .ok (c.assigns, scope) ∧ scope.names = c.names ∧
      compileExpr s.x scope (some "x") = .ok c.x ∧ compileExpr s.y scope (some "y") = .ok c.y := by
  have hparts : s.compile.map Curve.parts = .ok c.parts := Outcome.map_eq_ok_iff.2 ⟨c, h, rfl⟩
  rw [map_parts_compile, compileParts] at hparts
  obtain ⟨⟨assigns, scope⟩, hclause, hparts⟩ := Outcome.bind_eq_ok_iff.1 hparts
  obtain ⟨x, hx, hparts⟩ := Outcome.bind_eq_ok_iff.1 hparts
  obtain ⟨y, hy, hparts⟩ := Outcome.bind_eq_ok_iff.1 hparts
  rw [Outcome.mapError_eq_ok_iff] at hclause hx hy
  obtain ⟨rfl, rfl, rfl, hnames, _⟩ := Curve.Parts.mk.inj (Except.ok.inj hparts)
  exact ⟨scope, hclause, hnames, hx, hy⟩

theorem explained_of_compile (h : s.compile = .error e) : e.IsExplained := by
  cases hclause : compileAssignments s.clause with
  | error e' =>
      rw [compile_of_clause_error hclause] at h
      cases h
      exact (explained_of_compileAssignments hclause).withPart _
  | ok result =>
      obtain ⟨assigns, scope⟩ := result
      have hscope := Scope.reachable_of_compileAssignments hclause
      cases hx : compileExpr s.x scope (some "x") with
      | error e' =>
          rw [compile_of_x_error hclause hx] at h
          cases h
          exact (explained_of_compileExpr hscope hx).withPart _
      | ok x =>
          cases hy : compileExpr s.y scope (some "y") with
          | error e' =>
              rw [compile_of_y_error hclause hx hy] at h
              cases h
              exact (explained_of_compileExpr hscope hy).withPart _
          | ok y =>
              obtain ⟨c, hc, _⟩ := exists_compile hclause hx hy
              rw [hc] at h
              cases h

end Sources

namespace Submission

/-- How the parts of a submission decide about it. -/
structure DecidedInOrder (s : Sources) : Prop where
  /-- One session for all parts changes neither what is left nor what is recorded. -/
  session : Session.submit s = ((submit s).result, (submit s).log)
  /-- A where clause that is rejected decides, whatever the coordinates are. -/
  clause : ∀ e, compileAssignments s.clause = .error e →
    ∀ x y, (submit ⟨x, y, s.clause⟩).outcome = .error (e.withPart "where")
  /-- Otherwise the first coordinate decides if it is rejected, whatever the second one is, -/
  first : ∀ assigns scope e, compileAssignments s.clause = .ok (assigns, scope) →
    compileExpr s.x scope (some "x") = .error e →
      ∀ y, (submit ⟨s.x, y, s.clause⟩).outcome = .error (e.withPart "x(t)")
  /-- and after it the second one. -/
  second : ∀ assigns scope x e, compileAssignments s.clause = .ok (assigns, scope) →
    compileExpr s.x scope (some "x") = .ok x → compileExpr s.y scope (some "y") = .error e →
      (submit s).outcome = .error (e.withPart "y(t)")
  /-- If all are accepted, the curve is made of what each of them comes to on its own. -/
  accepted : ∀ assigns scope x y, compileAssignments s.clause = .ok (assigns, scope) →
    compileExpr s.x scope (some "x") = .ok x → compileExpr s.y scope (some "y") = .ok y →
      ∃ c, (submit s).outcome = .ok c ∧ c.parts = ⟨x, y, assigns, scope.names, s⟩
  /-- Another second coordinate leaves the first one as it is, -/
  otherSecond : ∀ c, (submit s).outcome = .ok c →
    ∀ y c', (submit ⟨s.x, y, s.clause⟩).outcome = .ok c' →
      c'.x = c.x ∧ c'.assigns = c.assigns ∧ c'.names = c.names
  /-- and another first coordinate the second one. -/
  otherFirst : ∀ c, (submit s).outcome = .ok c →
    ∀ x c', (submit ⟨x, s.y, s.clause⟩).outcome = .ok c' →
      c'.y = c.y ∧ c'.assigns = c.assigns ∧ c'.names = c.names
  /-- The status of a rejection is its description, and so is what the one record of it says. A
  syntax error is followed by its explanation. -/
  rejected : ∀ e, (submit s).outcome = .error e → (submit s).status = e.describe ∧
    ∃ opening explanation, opening.level = .debug ∧
      (submit s).log = opening :: ⟨.info, "Rejected submission: " ++ e.describe⟩ :: explanation ∧
      ((∃ detail, e.cause = .malformed detail) →
        ∃ record, explanation = [record] ∧ record.level = .debug) ∧
      ((∀ detail, e.cause ≠ .malformed detail) → explanation = [])

theorem rejectionLog_of_syntax {e : CompileError} (he : e.IsExplained)
    (hmalformed : ∃ detail, e.cause = .malformed detail) : ∃ record, record.level = .debug ∧
      rejectionLog e = [⟨.info, "Rejected submission: " ++ e.describe⟩, record] := by
  obtain ⟨detail, hdetail⟩ := hmalformed
  obtain ⟨text, rfl, hne⟩ := he detail hdetail
  refine ⟨⟨.debug, "Parser detail: " ++ text⟩, rfl, ?_⟩
  simp [rejectionLog, hdetail, Cause.detail?, hne]

theorem rejectionLog_of_other {e : CompileError}
    (hother : ∀ detail, e.cause ≠ .malformed detail) :
    rejectionLog e = [⟨.info, "Rejected submission: " ++ e.describe⟩] := by
  have hnone : e.cause.detail? = none := by
    cases hcause : e.cause with
    | malformed detail => exact absurd hcause (hother detail)
    | _ => rfl
  simp [rejectionLog, hnone]

/-- The first part that is rejected decides about a submission, and the parts do not influence one
another: the curve of an accepted one is put together from what each part comes to on its own. -/
theorem submit_decidedInOrder (s : Sources) : DecidedInOrder s where
  session := Session.submit_eq s
  clause := fun e hclause x y => Sources.compile_of_clause_error (s := ⟨x, y, s.clause⟩) hclause
  first := fun assigns scope e hclause hx y =>
    Sources.compile_of_x_error (s := ⟨s.x, y, s.clause⟩) hclause hx
  second := fun assigns scope x e hclause hx hy => Sources.compile_of_y_error hclause hx hy
  accepted := fun assigns scope x y hclause hx hy => Sources.exists_compile hclause hx hy
  otherSecond := by
    intro c hc y c' hc'
    obtain ⟨scope, hclause, hnames, hx, _⟩ := Sources.parts_of_compile hc
    obtain ⟨scope', hclause', hnames', hx', _⟩ := Sources.parts_of_compile hc'
    obtain ⟨hassigns, rfl⟩ := Prod.mk.inj (Except.ok.inj (hclause'.symm.trans hclause))
    exact ⟨Except.ok.inj (hx'.symm.trans hx), hassigns, hnames'.symm.trans hnames⟩
  otherFirst := by
    intro c hc x c' hc'
    obtain ⟨scope, hclause, hnames, _, hy⟩ := Sources.parts_of_compile hc
    obtain ⟨scope', hclause', hnames', _, hy'⟩ := Sources.parts_of_compile hc'
    obtain ⟨hassigns, rfl⟩ := Prod.mk.inj (Except.ok.inj (hclause'.symm.trans hclause))
    exact ⟨Except.ok.inj (hy'.symm.trans hy), hassigns, hnames'.symm.trans hnames⟩
  rejected := by
    intro e he
    have hexplained := Sources.explained_of_compile he
    have hlog : (submit s).log = (Session.opening s).log ++ rejectionLog e := by
      rw [log, he]
      rfl
    refine ⟨by rw [status, he], ?_⟩
    by_cases hmalformed : ∃ detail, e.cause = .malformed detail
    · obtain ⟨record, hlevel, hrecords⟩ := rejectionLog_of_syntax hexplained hmalformed
      rw [hrecords] at hlog
      exact ⟨_, [record], rfl, hlog, fun _ => ⟨record, rfl, hlevel⟩,
        fun hother => absurd hmalformed (by simpa using hother)⟩
    · have hother := not_exists.1 hmalformed
      rw [rejectionLog_of_other hother] at hlog
      exact ⟨_, [], rfl, hlog, fun h => absurd h hmalformed, fun _ => rfl⟩

end Submission

end FlightCurve

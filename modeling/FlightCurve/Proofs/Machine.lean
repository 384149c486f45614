import Mathlib.Logic.Relation
import FlightCurve.Proofs.Cursor

/-!
Reading step by step. Each procedure of a reader is a program that looks up tokens, moves its index,
opens and closes parentheses, and calls procedures; a loop is a procedure that calls itself for the
next round. A machine runs these programs with the calls that are not finished below the one that
runs, so that everything that happens on the way is a step from one configuration to the next.

Nothing here bounds a loop or the depth of the calls, and nothing keeps an index in range: a look-up
of a token that is not there has no next step.
-/

namespace FlightCurve

/-- The tokens of a source, and whether line feeds outside parentheses separate assignments. -/
structure Machine where
  source : Scanned
  separating : Bool

namespace Machine

/-- The tokens, the one for the end of the source included. -/
def tokens (m : Machine) : List Token := m.source.withEof

/-- Where a machine stands. `taken` counts the tokens that it has moved over, line feeds that it
merely passed not among them; no program looks at it. -/
structure State where
  index : Nat
  depth : Int
  taken : Nat
  deriving DecidableEq, Repr

namespace State

def start : State := ⟨0, 0, 0⟩

/-- Passes over a line feed that separates nothing. -/
def pass (st : State) : State := { st with index := st.index + 1 }

def take (st : State) : State := { st with index := st.index + 1, taken := st.taken + 1 }

def opened (st : State) : State := { st with depth := st.depth + 1 }

def closed (st : State) : State := { st with depth := st.depth - 1 }

end State

/-! Procedures -/

/-- The procedures of a reader. `skip`, `ahead`, `tail`, `separators`, `assignments` and `advances`
are its loops: each call makes one round and calls the procedure again. -/
inductive Procedure
  | skip
  | current
  | ahead (index offset : Nat)
  | peek (offset : Nat)
  | advance
  | expect (kind : Kind)
  | accept (kinds : List Kind)
  | tail (c : Chain)
  | rule (r : Rule)
  | expr
  | separators
  | assignment
  | assignments
  | clause
  | atHeader
  | advances (count : Nat)
  | curveExpr (axis : Option String)

/-- What a procedure returns. -/
abbrev Procedure.Result : Procedure → Type
  | .skip => Unit
  | .current => Token
  | .ahead _ _ => Token
  | .peek _ => Token
  | .advance => Token
  | .expect _ => Token
  | .accept _ => Option Token
  | .tail c => Tail c
  | .rule r => Tree r
  | .expr => Expr
  | .separators => Unit
  | .assignment => Assignment
  | .assignments => List Assignment
  | .clause => List Assignment
  | .atHeader => Bool
  | .advances _ => Unit
  | .curveExpr _ => Expr

/-- What is left to do in a call: each form but the first two goes on with what it has found. -/
inductive Program (α : Type)
  | ret (value : α)
  | stuck (reason : Reason) (tok : Token)
  | look (index : Nat) (next : Token → Program α)
  | get (next : State → Program α)
  | put (st : State) (next : Program α)
  | call (p : Procedure) (next : p.Result → Program α)

/-- Stops at the current token, which is looked up for its place and for its text. -/
def stuckHere {α : Type} (reason : Reason) : Program α :=
  .call .current fun tok => .call .current fun _ => .stuck reason tok

/-- The operator of a sum or a product is seen before it is taken. -/
def seenOperator {α : Type} (c : Chain) (next : Option (Placed c.Op) → Program α) : Program α :=
  .call .current fun tok =>
  match c.op? tok.kind with
  | none => next none
  | some op => .call .advance fun tok => next (some ⟨op, tok.position⟩)

/-- The operator with which a chain goes on, if it does. -/
def operator {α : Type} : (c : Chain) → (Option (Placed c.Op) → Program α) → Program α
  | .sum, next => seenOperator .sum next
  | .product, next => seenOperator .product next
  | .power, next =>
      .call (.accept [.caret]) fun tok? => next (tok?.map fun tok => ⟨(), tok.position⟩)

/-- A primary expression that is called with nothing. -/
def plain : Program (Tree .call) :=
  .call (.rule .primary) fun value => .ret (.plain value)

/-- The arguments of a call, after its name. -/
def arguments (name : Token) : Program (Tree .call) :=
  .call (.rule .primary) fun first => .call .current fun next =>
  if Cursor.startsPrimary next then
    .call (.rule .primary) fun second => .ret (.callTwo name.placed first second)
  else .ret (.callOne name.placed first)

/-- The depth is lowered before the closing parenthesis is looked for. -/
def afterOpening : Program (Tree .primary) :=
  .call .expr fun value => .get fun st => .put st.closed <|
  .call (.expect .rparen) fun _ => .ret (.group value)

/-- An expression in parentheses. -/
def group : Program (Tree .primary) :=
  .call .advance fun _ => .get fun st => .put st.opened afterOpening

/-- The assignments after a separator. -/
def others (first : Assignment) : Program (List Assignment) :=
  .call .separators fun _ => .call .assignments fun others => .ret (first :: others)

/-- The assignments after the first one. -/
def afterFirst (first : Assignment) : Program (List Assignment) :=
  .call .current fun tok =>
  if tok.kind = .eof then .ret [first]
  else
    .call .current fun tok =>
    if Reader.isSeparator tok then others first else stuckHere .afterAssignment

/-- The assignments of a clause, of which the keyword has been passed. -/
def afterKeyword : Program (List Assignment) :=
  .call .separators fun _ => .call .assignments .ret

/-- An expression that ends where the source does. -/
def wholeExpr : Program Expr :=
  .call .expr fun value => .call .current fun tok =>
  if tok.kind = .eof then .ret value else stuckHere .afterExpression

/-- What is done in a call of a procedure. -/
def body (m : Machine) : (p : Procedure) → Program p.Result
  | .skip =>
      .get fun st => .look st.index fun tok =>
      if tok.kind = .newline ∧ (m.separating = false ∨ 0 < st.depth) then
        .put st.pass <| .call .skip .ret
      else .ret ()
  | .current => .call .skip fun _ => .get fun st => .look st.index .ret
  | .ahead index offset =>
      if 0 < offset ∧ index < m.tokens.length - 1 then
        .look (index + 1) fun next =>
        .call (.ahead (index + 1) (if next.kind = .newline then offset else offset - 1)) .ret
      else .look index .ret
  | .peek offset => .call .skip fun _ => .get fun st => .call (.ahead st.index offset) .ret
  | .advance =>
      .call .current fun tok => .get fun st =>
      if st.index < m.tokens.length - 1 then .put st.take <| .ret tok else .ret tok
  | .expect kind =>
      .call .current fun tok =>
      if tok.kind = kind then .call .advance .ret else .stuck (.expected kind) tok
  | .accept kinds =>
      .call .current fun tok =>
      if tok.kind ∈ kinds then .call .advance fun tok => .ret (some tok) else .ret none
  | .tail c =>
      operator c fun
      | none => .ret .done
      | some op =>
          .call (.rule c.operand) fun value => .call (.tail c) fun rest =>
          .ret (.step op value rest)
  | .rule (.chain c) =>
      .call (.rule c.operand) fun first => .call (.tail c) fun rest => .ret (.chain first rest)
  | .rule .signed =>
      .call (.accept [.minus]) fun sign => .call (.rule (.chain .power)) fun value =>
      .ret (.signed sign.isSome value)
  | .rule .call =>
      .call .current fun tok =>
      if tok.kind = .ident then
        .call (.peek 1) fun next =>
        if Cursor.startsPrimary next then
          .call .advance fun name => .call .current fun next =>
          if Cursor.startsPrimary next then arguments name
          else .ret (.plain (.variable name.placed))
        else plain
      else plain
  | .rule .primary =>
      .call .current fun tok =>
      match tok.kind with
      | .lparen =>
          .get fun st => if maxNesting ≤ st.depth then .stuck .tooDeep tok else group
      | .ident => .call .advance fun _ => .ret (.variable tok.placed)
      | .number => .call .advance fun _ => .ret (.number tok.placed)
      | _ => .stuck .noOperand tok
  | .expr => .call (.rule (.chain .sum)) .ret
  | .separators =>
      .call (.accept [.newline, .semicolon]) fun
      | none => .ret ()
      | some _ => .call .separators .ret
  | .assignment =>
      .call (.expect .ident) fun target => .call (.expect .equals) fun _ =>
      .call .expr fun value => .ret ⟨target.placed, value⟩
  | .assignments =>
      .call .current fun tok =>
      if tok.kind = .eof then .ret [] else .call .assignment afterFirst
  | .clause =>
      .call .current fun tok =>
      if tok.kind = .ident ∧ tok.text = whereKeyword then
        .call (.peek 1) fun next =>
        if next.kind = .equals then afterKeyword else .call .advance fun _ => afterKeyword
      else afterKeyword
  | .atHeader =>
      .call (.peek 0) fun name => .call (.peek 1) fun left => .call (.peek 2) fun parameter =>
      .call (.peek 3) fun right => .call (.peek 4) fun sign =>
      .ret (name.kind = .ident && left.kind = .lparen && parameter.kind = .ident &&
        parameter.text = parameterName && right.kind = .rparen && sign.kind = .equals)
  | .advances 0 => .ret ()
  | .advances (count + 1) => .call .advance fun _ => .call (.advances count) .ret
  | .curveExpr axis =>
      .call .atHeader fun isHeader =>
      if isHeader then
        .call .advance fun name =>
        match axis with
        | none => .call (.advances 4) fun _ => wholeExpr
        | some axis =>
            if name.text = axis then .call (.advances 4) fun _ => wholeExpr
            else .stuck (.otherAxis axis) name
      else wholeExpr

/-! Running -/

/-- The calls that wait for another one: which procedure made each, where that had begun, and how it
goes on. -/
inductive Calls (root : Procedure) : Procedure → Type
  | none : Calls root root
  | made {callee : Procedure} (caller : Procedure) (entry : State)
      (next : callee.Result → Program caller.Result) (before : Calls root caller) :
      Calls root callee

/-- What there is in the middle of a call of `root`: the procedure that runs, the state in which it
was called, the present one, what it has left to do, and the calls that wait. -/
structure Config (root : Procedure) where
  running : Procedure
  entry : State
  state : State
  program : Program running.Result
  calls : Calls root running

variable {root : Procedure}

/-- A call that has just been made. -/
def enter (m : Machine) (p : Procedure) (st : State) (calls : Calls root p) : Config root :=
  ⟨p, st, st, m.body p, calls⟩

/-- The next configuration. There is none where the call of `root` has ended, and none where a token
is looked up that is not there. -/
def step (m : Machine) : Config root → Option (Config root)
  | ⟨_, _, _, .ret _, .none⟩ => none
  | ⟨_, _, st, .ret value, .made caller entry next before⟩ =>
      some ⟨caller, entry, st, next value, before⟩
  | ⟨_, _, _, .stuck _ _, _⟩ => none
  | ⟨p, entry, st, .look i next, calls⟩ =>
      m.tokens[i]?.map fun tok => ⟨p, entry, st, next tok, calls⟩
  | ⟨p, entry, st, .get next, calls⟩ => some ⟨p, entry, st, next st, calls⟩
  | ⟨p, entry, _, .put st next, calls⟩ => some ⟨p, entry, st, next, calls⟩
  | ⟨p, entry, st, .call q next, calls⟩ => some (m.enter q st (.made p entry next calls))

theorem step_look {m : Machine} {p : Procedure} {entry st : State} {i : Nat} {tok : Token}
    {next : Token → Program p.Result} {calls : Calls root p} (h : m.tokens[i]? = some tok) :
    m.step ⟨p, entry, st, .look i next, calls⟩ = some ⟨p, entry, st, next tok, calls⟩ := by
  change m.tokens[i]?.map _ = _
  rw [h]
  rfl

/-- Steps lead from one configuration to the other. -/
abbrev Reaches (m : Machine) : Config root → Config root → Prop :=
  Relation.ReflTransGen fun c c' => m.step c = some c'

/-- How the call of `root` has ended, if it has. -/
def Config.outcome : Config root → Option (Except Cursor.Stop root.Result)
  | ⟨_, _, _, .ret value, .none⟩ => some (.ok value)
  | ⟨_, _, _, .stuck reason tok, _⟩ => some (.error (.stuck reason tok))
  | _ => none

end Machine

end FlightCurve

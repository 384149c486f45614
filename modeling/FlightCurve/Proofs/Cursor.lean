import FlightCurve.Tree.Parser

/-!
Reading by index. A cursor stands at an index of the tokens, the one for the end of the source
included, and counts the parentheses that it is in. It passes over the line feeds that separate
nothing when it comes to them; they are not dropped beforehand.

Looking up a token that is not there ends the reading, and so does a loop that would go on forever.
-/

namespace FlightCurve

structure Cursor where
  index : Nat
  depth : Nat
  deriving DecidableEq, Repr

namespace Cursor

/-- What ends a reading: it is stuck at a token, there is no token at an index, or a loop has come
back to where it was. -/
inductive Stop
  | stuck (reason : Reason) (tok : Token)
  | outOfRange
  | stalled
  deriving DecidableEq, Repr

/-- What is read at a cursor, and where the cursor is afterwards. -/
abbrev Read (α : Type) := Cursor → Except Stop (α × Cursor)

section Tokens

variable (tokens : List Token) (separating : Bool)

/-- The token at the cursor, after the line feeds that separate nothing. -/
def current (start : Cursor) : Except Stop (Token × Cursor) :=
  match _h : tokens[start.index]? with
  | none => .error .outOfRange
  | some tok =>
      if tok.kind = .newline ∧ (separating = false ∨ 0 < start.depth) then
        current ⟨start.index + 1, start.depth⟩
      else .ok (tok, start)
termination_by tokens.length - start.index
decreasing_by
  have := (List.getElem?_eq_some_iff.1 _h).1
  omega

/-- The token that stands `offset` tokens after an index, line feeds not counted, or the last one if
there are not so many. -/
def ahead (index offset : Nat) : Except Stop Token :=
  match _h : tokens[index]? with
  | none => .error .outOfRange
  | some tok =>
      if 0 < offset ∧ index < tokens.length - 1 then
        match tokens[index + 1]? with
        | none => .error .outOfRange
        | some next => ahead (index + 1) (if next.kind = .newline then offset else offset - 1)
      else .ok tok
termination_by tokens.length - index
decreasing_by
  have := (List.getElem?_eq_some_iff.1 _h).1
  omega

/-- Looks past the current token without moving over it. -/
def peek (offset : Nat) : Read Token := fun start => do
  let (_, here) ← current tokens separating start
  let tok ← ahead tokens here.index offset
  .ok (tok, here)

/-- Moves over the current token, unless it is the last one. -/
def advance : Read Token := fun start => do
  let (tok, here) ← current tokens separating start
  .ok (tok, if here.index < tokens.length - 1 then ⟨here.index + 1, here.depth⟩ else here)

def expect (kind : Kind) : Read Token := fun start => do
  let (tok, here) ← current tokens separating start
  if tok.kind = kind then advance tokens separating here
  else .error (.stuck (.expected kind) tok)

/-! Expressions -/

/-- Operators and operands as long as there are any. -/
def tail (c : Chain) (operand : Read (Tree c.operand)) (start : Cursor) :
    Except Stop (Tail c × Cursor) := do
  let (tok, here) ← current tokens separating start
  match c.op? tok.kind with
  | none => .ok (.done, here)
  | some op => do
      let (_, next) ← advance tokens separating here
      let (value, after) ← operand next
      if _h : start.index < after.index ∧ start.index < tokens.length then do
        let (rest, last) ← tail c operand after
        .ok (.step ⟨op, tok.position⟩ value rest, last)
      else .error .stalled
termination_by tokens.length - start.index

def chain (c : Chain) (operand : Read (Tree c.operand)) : Read (Tree (.chain c)) := fun start => do
  let (first, next) ← operand start
  let (rest, last) ← tail tokens separating c operand next
  .ok (.chain first rest, last)

/-- The depth is lowered before the closing parenthesis is looked for. -/
def primary (inner : Option (Read Expr)) : Read (Tree .primary) := fun start => do
  let (tok, here) ← current tokens separating start
  match tok.kind with
  | .lparen =>
      if maxNesting ≤ here.depth then .error (.stuck .tooDeep tok)
      else
        match inner with
        | none => .error .stalled
        | some inner => do
            let (_, inside) ← advance tokens separating here
            let (value, last) ← inner ⟨inside.index, inside.depth + 1⟩
            let (_, after) ← expect tokens separating .rparen ⟨last.index, last.depth - 1⟩
            .ok (.group value, after)
  | .ident => do
      let (_, after) ← advance tokens separating here
      .ok (.variable tok.placed, after)
  | .number => do
      let (_, after) ← advance tokens separating here
      .ok (.number tok.placed, after)
  | _ => .error (.stuck .noOperand tok)

def startsPrimary (tok : Token) : Bool :=
  tok.kind = .lparen || tok.kind = .ident || tok.kind = .number

def plain (inner : Option (Read Expr)) : Read (Tree .call) := fun start => do
  let (value, after) ← primary tokens separating inner start
  .ok (.plain value, after)

/-- One argument, and another one if a primary expression follows it. -/
def arguments (inner : Option (Read Expr)) (name : Placed String) : Read (Tree .call) :=
  fun start => do
    let (first, after) ← primary tokens separating inner start
    let (next, after) ← current tokens separating after
    if startsPrimary next then do
      let (second, after) ← primary tokens separating inner after
      .ok (.callTwo name first second, after)
    else .ok (.callOne name first, after)

/-- The token after a name is looked for beyond line feeds first, and once more when the name has
been taken. -/
def call (inner : Option (Read Expr)) : Read (Tree .call) := fun start => do
  let (tok, here) ← current tokens separating start
  if tok.kind = .ident then do
    let (next, here) ← peek tokens separating 1 here
    if startsPrimary next then do
      let (name, after) ← advance tokens separating here
      let (next, after) ← current tokens separating after
      if startsPrimary next then arguments tokens separating inner name.placed after
      else .ok (.plain (.variable name.placed), after)
    else plain tokens separating inner here
  else plain tokens separating inner here

def signed (power : Read (Tree (.chain .power))) : Read (Tree .signed) := fun start => do
  let (tok, here) ← current tokens separating start
  if tok.kind = .minus then do
    let (_, next) ← advance tokens separating here
    let (value, after) ← power next
    .ok (.signed true value, after)
  else do
    let (value, after) ← power here
    .ok (.signed false value, after)

def sum (inner : Option (Read Expr)) : Read Expr :=
  chain tokens separating .sum (chain tokens separating .product (signed tokens separating
    (chain tokens separating .power (call tokens separating inner))))

/-- How expressions in parentheses are read that may nest `levels` deep, themselves counted. -/
def nested : Nat → Option (Read Expr)
  | 0 => none
  | levels + 1 => some (sum tokens separating (nested levels))

def expr : Read Expr := sum tokens separating (nested tokens separating maxNesting)

end Tokens

/-! Where clauses -/

section Clause

variable (tokens : List Token)

def assignment : Read Assignment := fun start => do
  let (target, next) ← expect tokens true .ident start
  let (_, next) ← expect tokens true .equals next
  let (value, after) ← expr tokens true next
  .ok (⟨target.placed, value⟩, after)

/-- Moves over separators. -/
def separators (start : Cursor) : Except Stop Cursor := do
  let (tok, here) ← current tokens true start
  if Reader.isSeparator tok then do
    let (_, next) ← advance tokens true here
    if _h : start.index < next.index ∧ start.index < tokens.length then separators next
    else .error .stalled
  else .ok here
termination_by tokens.length - start.index

/-- Assignments up to the end; the cursor has passed the separators before the first one. -/
def assignments (start : Cursor) : Except Stop (List Assignment) := do
  let (tok, here) ← current tokens true start
  if tok.kind = .eof then .ok []
  else do
    let (first, after) ← assignment tokens here
    let (tok, after) ← current tokens true after
    if tok.kind = .eof then .ok [first]
    else if Reader.isSeparator tok then do
      let next ← separators tokens after
      if _h : start.index < next.index ∧ start.index < tokens.length then do
        let others ← assignments next
        .ok (first :: others)
      else .error .stalled
    else .error (.stuck .afterAssignment tok)
termination_by tokens.length - start.index

/-- Moves over a leading `where`, unless an equals sign follows it. -/
def dropWhere (start : Cursor) : Except Stop Cursor := do
  let (tok, here) ← current tokens true start
  if tok.kind = .ident ∧ tok.text = whereKeyword then do
    let (next, here) ← peek tokens true 1 here
    if next.kind = .equals then .ok here
    else do
      let (_, after) ← advance tokens true here
      .ok after
  else .ok here

def clause : Except Stop (List Assignment) := do
  let start ← dropWhere tokens ⟨0, 0⟩
  let first ← separators tokens start
  assignments tokens first

end Clause

/-! Curve expressions -/

section CurveExpr

variable (tokens : List Token)

/-- Whether the next five tokens are a header, and where the cursor is then. -/
def atHeader : Read Bool := fun start => do
  let (name, here) ← peek tokens false 0 start
  let (left, here) ← peek tokens false 1 here
  let (parameter, here) ← peek tokens false 2 here
  let (right, here) ← peek tokens false 3 here
  let (sign, here) ← peek tokens false 4 here
  .ok (name.kind = .ident && left.kind = .lparen && parameter.kind = .ident &&
    parameter.text = parameterName && right.kind = .rparen && sign.kind = .equals, here)

def advanceBy : Nat → Cursor → Except Stop Cursor
  | 0, start => .ok start
  | n + 1, start => do
      let (_, next) ← advance tokens false start
      advanceBy n next

/-- Moves over a header, which must name the axis if there is one. -/
def header (axis : Option String) (start : Cursor) : Except Stop Cursor := do
  let (name, next) ← advance tokens false start
  match axis with
  | none => advanceBy tokens 4 next
  | some axis =>
      if name.text = axis then advanceBy tokens 4 next
      else .error (.stuck (.otherAxis axis) name)

/-- An expression that ends where the source does. -/
def wholeExpr (start : Cursor) : Except Stop Expr := do
  let (value, after) ← expr tokens false start
  let (tok, _) ← current tokens false after
  if tok.kind = .eof then .ok value else .error (.stuck .afterExpression tok)

def curveExpr (axis : Option String) : Except Stop Expr := do
  let (isHeader, here) ← atHeader tokens ⟨0, 0⟩
  if isHeader then do
    let start ← header tokens axis here
    wholeExpr tokens start
  else wholeExpr tokens here

end CurveExpr

end Cursor

end FlightCurve

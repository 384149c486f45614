import FlightCurve.Tree.Parser

/-!
The grammar of curve expressions and where clauses, as relations on tokens. It is said here without
trees and without readers: which sequences of tokens a rule derives, how many parentheses are open,
what a header is, and how assignments stand between separators.
-/

namespace FlightCurve

/-! Expressions -/

/-- The kinds of the tokens that may stand between the operands of a chain. -/
def Chain.operators : Chain → List Kind
  | .sum => [.plus, .minus]
  | .product => [.star, .slash, .doubleSlash, .percent]
  | .power => [.caret]

/-- The sequences of tokens that a rule derives. A chain is `operand (operator operand)*`. -/
inductive Rule.Derives : Rule → List Token → Prop
  | operand {c : Chain} {ts : List Token} (first : Derives c.operand ts) : Derives (.chain c) ts
  | operator {c : Chain} {ts us : List Token} {tok : Token} (first : Derives c.operand ts)
      (between : tok.kind ∈ c.operators) (rest : Derives (.chain c) us) :
      Derives (.chain c) (ts ++ tok :: us)
  | unsigned {ts : List Token} (operand : Derives (.chain .power) ts) : Derives .signed ts
  | negated {ts : List Token} {sign : Token} (minus : sign.kind = .minus)
      (operand : Derives (.chain .power) ts) : Derives .signed (sign :: ts)
  | callTwo {ts us : List Token} {name : Token} (ident : name.kind = .ident)
      (first : Derives .primary ts) (second : Derives .primary us) :
      Derives .call (name :: (ts ++ us))
  | callOne {ts : List Token} {name : Token} (ident : name.kind = .ident)
      (argument : Derives .primary ts) : Derives .call (name :: ts)
  | plain {ts : List Token} (primary : Derives .primary ts) : Derives .call ts
  | group {ts : List Token} {left right : Token} (lparen : left.kind = .lparen)
      (inner : Derives (.chain .sum) ts) (rparen : right.kind = .rparen) :
      Derives .primary (left :: (ts ++ [right]))
  | name {name : Token} (ident : name.kind = .ident) : Derives .primary [name]
  | literal {literal : Token} (number : literal.kind = .number) : Derives .primary [literal]

/-- Neither an equals sign nor a separator stands in what a rule derives. -/
theorem Rule.Derives.kind_ne {r : Rule} {ts : List Token} (h : r.Derives ts) :
    ∀ tok ∈ ts, tok.kind ≠ .equals ∧ tok.kind ≠ .newline ∧ tok.kind ≠ .semicolon := by
  induction h with
  | operand _ ih => exact ih
  | @operator c us vs tok _ between _ ihFirst ihRest =>
      rw [List.forall_mem_append, List.forall_mem_cons]
      refine ⟨ihFirst, ?_, ihRest⟩
      cases c <;> simp only [Chain.operators, List.mem_cons, List.not_mem_nil, or_false] at between
      · rcases between with h | h <;> simp [h]
      · rcases between with h | h | h | h <;> simp [h]
      · simp [between]
  | unsigned _ ih => exact ih
  | negated minus _ ih => exact List.forall_mem_cons.2 ⟨by simp [minus], ih⟩
  | callTwo ident _ _ ihFirst ihSecond =>
      rw [List.forall_mem_cons, List.forall_mem_append]
      exact ⟨by simp [ident], ihFirst, ihSecond⟩
  | callOne ident _ ih => exact List.forall_mem_cons.2 ⟨by simp [ident], ih⟩
  | plain _ ih => exact ih
  | group lparen _ rparen ih =>
      rw [List.forall_mem_cons, List.forall_mem_append, List.forall_mem_singleton]
      exact ⟨by simp [lparen], ih, by simp [rparen]⟩
  | name ident => exact List.forall_mem_singleton.2 (by simp [ident])
  | literal number => exact List.forall_mem_singleton.2 (by simp [number])

/-- How many parentheses are open after a token, when `n` are before it. -/
def Token.openAfter (n : Nat) (tok : Token) : Nat :=
  match tok.kind with
  | .lparen => n + 1
  | .rparen => n - 1
  | _ => n

theorem Token.openAfter_of_kind_ne {n : Nat} {tok : Token} (hleft : tok.kind ≠ .lparen)
    (hright : tok.kind ≠ .rparen) : tok.openAfter n = n := by
  unfold Token.openAfter
  split
  · contradiction
  · contradiction
  · rfl

/-- How many parentheses are open after tokens, when `n` are before them. -/
def openAfter (n : Nat) (ts : List Token) : Nat := ts.foldl Token.openAfter n

/-- The most parentheses that are open at the same time, when `n` are before the tokens. -/
def mostOpen (n : Nat) : List Token → Nat
  | [] => n
  | tok :: rest => max n (mostOpen (tok.openAfter n) rest)

/-- An expression with parentheses nested at most `maxNesting` deep. -/
structure IsExpr (ts : List Token) : Prop where
  derives : Rule.Derives (.chain .sum) ts
  nesting : mostOpen 0 ts ≤ maxNesting

/-! Curve expressions -/

/-- A header `name(t) =`. Where an axis is given, the name is that of the axis. -/
inductive IsHeader (axis : Option String) : List Token → Prop
  | mk {name left parameter right sign : Token} (ident : name.kind = .ident)
      (named : ∀ a ∈ axis, name.text = a) (lparen : left.kind = .lparen)
      (word : parameter.kind = .ident) (isParameter : parameter.text = parameterName)
      (rparen : right.kind = .rparen) (equals : sign.kind = .equals) :
      IsHeader axis [name, left, parameter, right, sign]

/-- The tokens of a curve expression: an expression, the tokens of which are `body`, with or without
a header before it. -/
structure IsCurveExpr (axis : Option String) (ts body : List Token) : Prop where
  header : ∃ header, ts = header ++ body ∧ (header = [] ∨ IsHeader axis header)
  body : IsExpr body

/-! Where clauses -/

/-- The tokens of one assignment. -/
structure AssignmentTokens where
  target : Token
  sign : Token
  value : List Token

namespace AssignmentTokens

def all (a : AssignmentTokens) : List Token := a.target :: a.sign :: a.value

/-- The rule `name "=" expression`. -/
structure Valid (a : AssignmentTokens) : Prop where
  ident : a.target.kind = .ident
  equals : a.sign.kind = .equals
  value : IsExpr a.value

end AssignmentTokens

/-- A line feed or a semicolon. -/
def Token.Separates (tok : Token) : Prop := tok.kind = .newline ∨ tok.kind = .semicolon

instance (tok : Token) : Decidable tok.Separates :=
  inferInstanceAs (Decidable (tok.kind = .newline ∨ tok.kind = .semicolon))

/-- The rule `(separator+ assignment)* separator*`, with the assignments in order. -/
inductive MoreAssignments : List AssignmentTokens → List Token → Prop
  | done {seps : List Token} (separates : ∀ tok ∈ seps, tok.Separates) : MoreAssignments [] seps
  | more {seps ts : List Token} {a : AssignmentTokens} {as : List AssignmentTokens}
      (separates : ∀ tok ∈ seps, tok.Separates) (nonempty : seps ≠ []) (valid : a.Valid)
      (rest : MoreAssignments as ts) : MoreAssignments (a :: as) (seps ++ (a.all ++ ts))

/-- The rule `separator* (assignment (separator+ assignment)*)? separator*`. -/
inductive SeparatedAssignments : List AssignmentTokens → List Token → Prop
  | empty {seps : List Token} (separates : ∀ tok ∈ seps, tok.Separates) :
      SeparatedAssignments [] seps
  | first {seps ts : List Token} {a : AssignmentTokens} {as : List AssignmentTokens}
      (separates : ∀ tok ∈ seps, tok.Separates) (valid : a.Valid) (rest : MoreAssignments as ts) :
      SeparatedAssignments (a :: as) (seps ++ (a.all ++ ts))

/-- A where clause: assignments, with or without the word `where` before everything else. -/
inductive IsClause : List AssignmentTokens → List Token → Prop
  | bare {ts : List Token} {as : List AssignmentTokens} (assignments : SeparatedAssignments as ts) :
      IsClause as ts
  | keyword {ts : List Token} {as : List AssignmentTokens} {tok : Token} (ident : tok.kind = .ident)
      (keyword : tok.text = whereKeyword) (assignments : SeparatedAssignments as ts) :
      IsClause as (tok :: ts)

/-- The tokens before the first separator outside parentheses, of which `n` are open. -/
def upToSeparator (n : Nat) : List Token → List Token
  | [] => []
  | tok :: rest =>
      if n = 0 ∧ tok.Separates then [] else tok :: upToSeparator (tok.openAfter n) rest

/-- An assignment stands somewhere in the tokens, and its value takes up all that is between its
equals sign and the next separator outside parentheses, or the end. -/
def AssignmentTokens.StandsIn (a : AssignmentTokens) (ts : List Token) : Prop :=
  ∃ before after, ts = before ++ (a.all ++ after) ∧ a.value = upToSeparator 0 (a.value ++ after)

/-- The tokens of a where clause that count: all but the line feeds inside parentheses. -/
def clauseTokens (ts : List Token) : List Token :=
  (ts.zipIdx.filter fun (tok, i) => ¬(tok.kind = .newline ∧ 0 < openAfter 0 (ts.take i))).map (·.1)

end FlightCurve

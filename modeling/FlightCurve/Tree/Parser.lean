import FlightCurve.Tree
import FlightCurve.Token.Lexer

/-!
Reading trees off a list of tokens. A reader takes tokens from the front and says what is left, or
where it got stuck and why. Parentheses nest at most `maxNesting` deep, and the readers recurse on
the depth that is left; chains recurse on the tokens that are left.

A line feed inside parentheses is a blank, and so is every line feed of a curve expression;
elsewhere it separates assignments. `significant` and `withoutNewlines` drop the blank ones
beforehand.
-/

namespace FlightCurve

/-- Deepest nesting of parentheses that is accepted. -/
def maxNesting : Nat := 32

/-- Why a reader cannot go on. -/
inductive Reason
  | expected (kind : Kind)
  | noOperand
  | tooDeep
  | afterAssignment
  | afterExpression
  | otherAxis (axis : String)
  deriving DecidableEq, Repr

/-- The explanation of a reason, for the token at which it arose. -/
def Reason.detail (tok : Token) : Reason → String
  | .expected kind => "Expected " ++ kind.name ++ ", got " ++ tok.describe
  | .noOperand =>
      if tok.kind = .eof then "Unexpected end of input" else "Unexpected token: " ++ tok.describe
  | .tooDeep => "Parentheses nested deeper than " ++ toString maxNesting
  | .afterAssignment => "Expected end of assignment, got " ++ Text.quoted tok.text
  | .afterExpression => "Unexpected token after expression: " ++ Text.quoted tok.text
  | .otherAxis axis => "Expected " ++ axis ++ "(t), got " ++ tok.text ++ "(t)"

/-- A reader got stuck: why, and with which tokens before it. -/
structure Stuck where
  reason : Reason
  rest : List Token
  deriving DecidableEq, Repr

/-- A value read off the front of `input`, and the tokens after it. At least one token was taken. -/
structure Reading (α : Type) (input : List Token) where
  value : α
  rest : List Token
  shorter : rest.length < input.length

/-- A reader of values off the front of a list of tokens. -/
abbrev Reader (α : Type) := (input : List Token) → Except Stuck (Reading α input)

namespace Reader

/-- What follows the first operand of a chain: operators and operands as long as there are any. -/
def tail (c : Chain) (operand : Reader (Tree c.operand)) (input : List Token) :
    Except Stuck { r : Tail c × List Token // r.2.length ≤ input.length } :=
  match input with
  | [] => .ok ⟨(.done, []), Nat.le_refl _⟩
  | tok :: after =>
      match c.op? tok.kind with
      | none => .ok ⟨(.done, tok :: after), Nat.le_refl _⟩
      | some op =>
          match operand after with
          | .error stuck => .error stuck
          | .ok next =>
              match tail c operand next.rest with
              | .error stuck => .error stuck
              | .ok ⟨(rest, left), h⟩ =>
                  .ok ⟨(.step ⟨op, tok.position⟩ next.value rest, left),
                    Nat.le_succ_of_le (Nat.le_trans h (Nat.le_of_lt next.shorter))⟩
termination_by input.length
decreasing_by
  have := next.shorter
  simp only [List.length_cons]
  omega

/-- A chain: an operand and what follows it. -/
def chain (c : Chain) (operand : Reader (Tree c.operand)) : Reader (Tree (.chain c)) := fun input =>
  match operand input with
  | .error stuck => .error stuck
  | .ok first =>
      match tail c operand first.rest with
      | .error stuck => .error stuck
      | .ok ⟨(rest, left), h⟩ =>
          .ok ⟨.chain first.value rest, left, Nat.lt_of_le_of_lt h first.shorter⟩

/-- A primary expression. `inner` reads what stands in parentheses, if they may nest deeper. -/
def primary (inner : Option (Reader Expr)) : Reader (Tree .primary)
  | [] => .error ⟨.noOperand, []⟩
  | tok :: after =>
      match tok.kind, inner with
      | .ident, _ => .ok ⟨.variable tok.placed, after, Nat.lt_succ_self _⟩
      | .number, _ => .ok ⟨.number tok.placed, after, Nat.lt_succ_self _⟩
      | .lparen, none => .error ⟨.tooDeep, tok :: after⟩
      | .lparen, some inner =>
          match inner after with
          | .error stuck => .error stuck
          | .ok ⟨_, [], _⟩ => .error ⟨.expected .rparen, []⟩
          | .ok ⟨value, close :: left, h⟩ =>
              if close.kind = .rparen then
                .ok ⟨.group value, left, by
                  simp only [List.length_cons] at h ⊢
                  omega⟩
              else .error ⟨.expected .rparen, close :: left⟩
      | _, _ => .error ⟨.noOperand, tok :: after⟩

/-- Whether a token can begin a primary expression. -/
def startsPrimary : List Token → Bool
  | tok :: _ => tok.kind = .lparen || tok.kind = .ident || tok.kind = .number
  | [] => false

/-- A call of a name with one or two arguments, or a primary expression. A name with a primary
expression right after it is always called. -/
def call (inner : Option (Reader Expr)) : Reader (Tree .call)
  | tok :: after =>
      if tok.kind = .ident ∧ startsPrimary after then
        match primary inner after with
        | .error stuck => .error stuck
        | .ok first =>
            if startsPrimary first.rest then
              match primary inner first.rest with
              | .error stuck => .error stuck
              | .ok second =>
                  .ok ⟨.callTwo tok.placed first.value second.value, second.rest,
                    Nat.lt_succ_of_lt (Nat.lt_trans second.shorter first.shorter)⟩
            else .ok ⟨.callOne tok.placed first.value, first.rest, Nat.lt_succ_of_lt first.shorter⟩
      else
        match primary inner (tok :: after) with
        | .error stuck => .error stuck
        | .ok p => .ok ⟨.plain p.value, p.rest, p.shorter⟩
  | [] => .error ⟨.noOperand, []⟩

/-- A power chain with at most one sign before it. -/
def signed (power : Reader (Tree (.chain .power))) : Reader (Tree .signed)
  | tok :: after =>
      if tok.kind = .minus then
        match power after with
        | .error stuck => .error stuck
        | .ok p => .ok ⟨.signed true p.value, p.rest, Nat.lt_succ_of_lt p.shorter⟩
      else
        match power (tok :: after) with
        | .error stuck => .error stuck
        | .ok p => .ok ⟨.signed false p.value, p.rest, p.shorter⟩
  | [] => .error ⟨.noOperand, []⟩

/-- An expression, with a reader for the expressions in its parentheses. -/
def sum (inner : Option (Reader Expr)) : Reader Expr :=
  chain .sum (chain .product (signed (chain .power (call inner))))

/-- The reader for expressions in parentheses that may nest `depth` deep, themselves counted. -/
def nested : Nat → Option (Reader Expr)
  | 0 => none
  | depth + 1 => some (sum (nested depth))

/-- An expression outside parentheses. -/
def expr : Reader Expr := sum (nested maxNesting)

/-- An assignment `name = expression`. -/
def assignment : Reader Assignment
  | [] => .error ⟨.expected .ident, []⟩
  | name :: after =>
      if name.kind ≠ .ident then .error ⟨.expected .ident, name :: after⟩
      else
        match after with
        | [] => .error ⟨.expected .equals, []⟩
        | sign :: right =>
            if sign.kind ≠ .equals then .error ⟨.expected .equals, sign :: right⟩
            else
              match expr right with
              | .error stuck => .error stuck
              | .ok value =>
                  .ok ⟨⟨name.placed, value.value⟩, value.rest, by
                    have := value.shorter
                    simp only [List.length_cons]
                    omega⟩

def isSeparator (tok : Token) : Bool := tok.kind = .newline || tok.kind = .semicolon

/-- Assignments with separators between them, to the end of the tokens. -/
def assignments (input : List Token) : Except Stuck (List Assignment) :=
  match _h : input.dropWhile isSeparator with
  | [] => .ok []
  | tok :: more =>
      match assignment (tok :: more) with
      | .error stuck => .error stuck
      | .ok first =>
          match _hr : first.rest with
          | [] => .ok [first.value]
          | sep :: after =>
              if isSeparator sep then
                match assignments (sep :: after) with
                | .error stuck => .error stuck
                | .ok others => .ok (first.value :: others)
              else .error ⟨.afterAssignment, sep :: after⟩
termination_by input.length
decreasing_by
  have h₁ := first.shorter
  have h₂ : (input.dropWhile isSeparator).length ≤ input.length :=
    (List.dropWhile_sublist isSeparator).length_le
  rw [_hr] at h₁
  rw [_h] at h₂
  omega

/-- Drops a leading `where`, unless it is the target of an assignment. -/
def dropWhere : List Token → List Token
  | tok :: after =>
      if tok.kind = .ident ∧ tok.text = whereKeyword ∧
          (after.find? (·.kind ≠ .newline)).map (·.kind) ≠ some .equals then after
      else tok :: after
  | [] => []

/-- The tokens after a leading `name(t) =`, with the name. -/
def header? : List Token → Option (Token × List Token)
  | name :: openParen :: parameter :: closeParen :: sign :: body =>
      if name.kind = .ident ∧ openParen.kind = .lparen ∧
          parameter.kind = .ident ∧ parameter.text = parameterName ∧
          closeParen.kind = .rparen ∧ sign.kind = .equals
      then some (name, body)
      else none
  | _ => none

/-- An expression that takes up all tokens. -/
def wholeExpr (input : List Token) : Except Stuck Expr :=
  match expr input with
  | .error stuck => .error stuck
  | .ok value =>
      match value.rest with
      | [] => .ok value.value
      | tok :: after => .error ⟨.afterExpression, tok :: after⟩

/-- A curve expression, with or without a header. Where an axis is given, a header must name it. -/
def curveExpr (axis : Option String) (input : List Token) : Except Stuck Expr :=
  match header? input, axis with
  | none, _ => wholeExpr input
  | some (_, body), none => wholeExpr body
  | some (name, body), some axis =>
      if name.text = axis then wholeExpr body else .error ⟨.otherAxis axis, input⟩

end Reader

/-- The tokens without any line feed. -/
def withoutNewlines (tokens : List Token) : List Token := tokens.filter (·.kind ≠ .newline)

/-- The tokens without the line feeds inside parentheses, of which `depth` are open. -/
def significant : Nat → List Token → List Token
  | _, [] => []
  | depth, tok :: rest =>
      match tok.kind with
      | .lparen => tok :: significant (depth + 1) rest
      | .rparen => tok :: significant (depth - 1) rest
      | .newline => if depth = 0 then tok :: significant depth rest else significant depth rest
      | _ => tok :: significant depth rest

/-- The tree of a curve expression that was cut into tokens. -/
def Scanned.curveExpr (axis : Option String) (s : Scanned) : Except Stuck Expr :=
  Reader.curveExpr axis (withoutNewlines s.tokens)

/-- The assignments of a where clause that was cut into tokens, in the order of the text. -/
def Scanned.assignments (s : Scanned) : Except Stuck (List Assignment) :=
  Reader.assignments (Reader.dropWhere (significant 0 s.tokens))

end FlightCurve

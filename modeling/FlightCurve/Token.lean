import FlightCurve.Text.Quoted

/-!
Tokens of curve expressions: their kinds, their places in the source, and the one-line form in which
diagnostics name them.
-/

namespace FlightCurve

/-- A place in a source. The offset counts characters from 0, line and column count from 1. -/
structure Position where
  offset : Nat
  line : Nat
  column : Nat
  deriving DecidableEq, Repr

namespace Position

def start : Position := ⟨0, 1, 1⟩

/-- The place after the character `c`: a line feed begins a new line. -/
def next (p : Position) (c : Char) : Position :=
  if c = '\n' then ⟨p.offset + 1, p.line + 1, 1⟩ else ⟨p.offset + 1, p.line, p.column + 1⟩

/-- The place after a run of characters. -/
def advance (p : Position) (cs : List Char) : Position :=
  cs.foldl next p

@[simp] theorem advance_nil (p : Position) : p.advance [] = p := rfl

@[simp] theorem advance_cons (p : Position) (c : Char) (cs : List Char) :
    p.advance (c :: cs) = (p.next c).advance cs := rfl

theorem advance_append (p : Position) (cs ds : List Char) :
    p.advance (cs ++ ds) = (p.advance cs).advance ds :=
  List.foldl_append ..

@[simp] theorem offset_next (p : Position) (c : Char) : (p.next c).offset = p.offset + 1 := by
  unfold next
  split <;> rfl

theorem offset_advance (p : Position) (cs : List Char) :
    (p.advance cs).offset = p.offset + cs.length := by
  induction cs generalizing p with
  | nil => rfl
  | cons c cs ih =>
      rw [advance_cons, ih, offset_next, List.length_cons]
      omega

end Position

/-- A value together with the place where the source states it. -/
structure Placed (α : Type) where
  value : α
  position : Position
  deriving DecidableEq, Repr

inductive Kind
  | number
  | ident
  | plus
  | minus
  | star
  | slash
  | doubleSlash
  | percent
  | caret
  | equals
  | lparen
  | rparen
  | semicolon
  | newline
  | eof
  deriving DecidableEq, Repr

def Kind.name : Kind → String
  | .number => "number"
  | .ident => "ident"
  | .plus => "plus"
  | .minus => "minus"
  | .star => "star"
  | .slash => "slash"
  | .doubleSlash => "double_slash"
  | .percent => "percent"
  | .caret => "caret"
  | .equals => "equals"
  | .lparen => "lparen"
  | .rparen => "rparen"
  | .semicolon => "semicolon"
  | .newline => "newline"
  | .eof => "eof"

/-- A token: its kind, the characters that it covers, and where the first of them stands. -/
structure Token where
  kind : Kind
  text : String
  position : Position
  deriving DecidableEq, Repr

namespace Token

/-- The token that stands for the end of a source. -/
def eof (p : Position) : Token := ⟨.eof, "", p⟩

/-- What a token says, wherever it stands. -/
def lexeme (tok : Token) : Kind × String := (tok.kind, tok.text)

def placed (tok : Token) : Placed String := ⟨tok.text, tok.position⟩

/-- The kind, the quoted text and the place of a token. -/
def display (tok : Token) : String :=
  "Token(" ++ tok.kind.name ++ ", " ++ Text.quoted tok.text ++ ", " ++
    toString tok.position.line ++ ":" ++ toString tok.position.column ++ ")"

/-- The kind and the quoted text, as syntax errors name a token. -/
def describe (tok : Token) : String :=
  tok.kind.name ++ " (" ++ Text.quoted tok.text ++ ")"

end Token

/-- A source cut into tokens: the tokens in order, and the place where the source ends. -/
structure Scanned where
  tokens : List Token
  finish : Position
  deriving DecidableEq, Repr

namespace Scanned

/-- All tokens, the one for the end of the source included. -/
def withEof (s : Scanned) : List Token := s.tokens ++ [Token.eof s.finish]

/-- The token at which a reader stands that has `rest` before it. -/
def current (s : Scanned) (rest : List Token) : Token := rest.head?.getD (Token.eof s.finish)

end Scanned

end FlightCurve

import FlightCurve.Token

/-!
Cutting a source into tokens. Each token is the longest one that begins where the scan stands;
blanks other than the line feed are skipped, and the scan stops at the first character that begins
no token.
-/

namespace FlightCurve.Lexer

def isBlank (c : Char) : Bool :=
  c = ' ' || c = '\t' || c = '\r' || c = '\x0c' || c = '\x0b'

/-- The number of digits at the front. Only the ASCII digits count. -/
def digitRun (cs : List Char) : Nat := (cs.takeWhile Char.isDigit).length

/-- The length of `digits [. digits*]` or `. digits` at the front, 0 if there is neither. -/
def mantissaLength (cs : List Char) : Nat :=
  match cs.drop (digitRun cs) with
  | '.' :: fraction =>
      if digitRun cs = 0 ∧ digitRun fraction = 0 then 0
      else digitRun cs + 1 + digitRun fraction
  | _ => digitRun cs

def signLength : List Char → Nat
  | '+' :: _ => 1
  | '-' :: _ => 1
  | _ => 0

/-- The length of an exponent at the front. A mark without digits after it is no exponent. -/
def exponentLength : List Char → Nat
  | c :: cs =>
      if c = 'e' ∨ c = 'E' then
        if digitRun (cs.drop (signLength cs)) = 0 then 0
        else 1 + signLength cs + digitRun (cs.drop (signLength cs))
      else 0
  | [] => 0

/-- The length of the number literal at the front, 0 if there is none. -/
def numberLength (cs : List Char) : Nat :=
  if mantissaLength cs = 0 then 0
  else mantissaLength cs + exponentLength (cs.drop (mantissaLength cs))

def isIdentRest (c : Char) : Bool := c.isAlphanum || c = '_'

/-- The length of the identifier at the front, 0 if there is none. -/
def identLength : List Char → Nat
  | c :: cs => if c.isAlpha then 1 + (cs.takeWhile isIdentRest).length else 0
  | [] => 0

/-- The kind of a token that is a single character. -/
def symbol? : Char → Option Kind
  | '\n' => some .newline
  | '+' => some .plus
  | '-' => some .minus
  | '*' => some .star
  | '/' => some .slash
  | '%' => some .percent
  | '^' => some .caret
  | '=' => some .equals
  | '(' => some .lparen
  | ')' => some .rparen
  | ';' => some .semicolon
  | _ => none

/-- The kind and the length of an operator, a bracket or a separator at the front. -/
def symbolAt? : List Char → Option (Kind × Nat)
  | '/' :: '/' :: _ => some (.doubleSlash, 2)
  | c :: _ => (symbol? c).map (·, 1)
  | [] => none

/-- The kind and the length of the token at the front. -/
def tokenAt? (cs : List Char) : Option (Kind × Nat) :=
  if 0 < numberLength cs then some (.number, numberLength cs)
  else if 0 < identLength cs then some (.ident, identLength cs)
  else symbolAt? cs

theorem tokenAt?_pos {cs : List Char} {kind : Kind} {n : Nat}
    (h : tokenAt? cs = some (kind, n)) : 0 < n := by
  unfold tokenAt? at h
  split at h
  · cases h
    assumption
  · split at h
    · cases h
      assumption
    · unfold symbolAt? at h
      split at h
      · cases h
        decide
      · simp only [Option.map_eq_some_iff] at h
        obtain ⟨_, _, h⟩ := h
        cases h
        decide
      · cases h

/-- The tokens of `cs`, the first character of which stands at `p`, or the first character that
begins no token. -/
def scanFrom (p : Position) (cs : List Char) : Except (Placed Char) Scanned :=
  match cs with
  | [] => .ok ⟨[], p⟩
  | c :: rest =>
      if isBlank c then scanFrom (p.next c) rest
      else
        match _h : tokenAt? (c :: rest) with
        | none => .error ⟨c, p⟩
        | some (kind, n) => do
            let text := (c :: rest).take n
            let after ← scanFrom (p.advance text) ((c :: rest).drop n)
            .ok { after with tokens := ⟨kind, String.ofList text, p⟩ :: after.tokens }
termination_by cs.length
decreasing_by
  · simp
  · have := tokenAt?_pos _h
    simp only [List.length_drop, List.length_cons]
    omega

end FlightCurve.Lexer

namespace FlightCurve

/-- A source cut into tokens, or the first character that begins none. -/
def scan (source : String) : Except (Placed Char) Scanned :=
  Lexer.scanFrom .start source.toList

end FlightCurve

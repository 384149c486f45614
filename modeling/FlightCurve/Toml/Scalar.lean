import FlightCurve.Text.Hexadecimal
import FlightCurve.Toml.Value

/-!
The leaves of a TOML document: blanks and comments, strings, numbers, dates and times. A reader
takes characters from the front and returns a value with the characters after it.
-/

namespace FlightCurve.Toml

/-- Why a text is not read. An integer with too many digits and a value that nests too deep are
faults of their own. -/
inductive Fault
  | malformed
  | longInteger (digits : Nat)
  | tooDeep
  deriving DecidableEq, Repr

/-! Blanks and comments -/

def isBlank (c : Char) : Bool := c = ' ' || c = '\t'

def skipBlanks (cs : List Char) : List Char := cs.dropWhile isBlank

/-- Control characters, which stand nowhere as they are. -/
def isControl (c : Char) : Bool := c.toNat < 0x20 || c.toNat = 0x7f

/-- Control characters that a string or a comment on one line may not hold. -/
def isIllegal (c : Char) : Bool := isControl c && c ≠ '\t'

/-- Control characters that a string over several lines may not hold. -/
def isIllegalInLines (c : Char) : Bool := isIllegal c && c ≠ '\n'

/-- What follows a comment, which reaches to the end of the line. -/
def skipComment : List Char → Except Fault (List Char)
  | '#' :: cs =>
      if (cs.takeWhile (· ≠ '\n')).any isIllegal then .error .malformed
      else .ok (cs.dropWhile (· ≠ '\n'))
  | cs => .ok cs

/-- What follows the blanks, line feeds and comments between the items of an array. -/
def skipFiller (inComment : Bool) : List Char → Except Fault (List Char)
  | [] => .ok []
  | c :: cs =>
      if c = '\n' then skipFiller false cs
      else if inComment then (if isIllegal c then .error .malformed else skipFiller true cs)
      else if isBlank c then skipFiller false cs
      else if c = '#' then skipFiller true cs
      else .ok (c :: cs)

/-! Strings -/

def escape? : Char → Option Char
  | 'b' => some '\x08'
  | 't' => some '\t'
  | 'n' => some '\n'
  | 'f' => some '\x0c'
  | 'r' => some '\r'
  | '"' => some '"'
  | '\\' => some '\\'
  | _ => none

/-- Puts a character before the text of a string. -/
def withChar? (c? : Option Char) (r : Except Fault (List Char × List Char)) :
    Except Fault (List Char × List Char) :=
  match c? with
  | none => .error .malformed
  | some c => r.map fun (text, rest) => (c :: text, rest)

/-- The rest of a string in double quotes on one line. -/
def basicString : List Char → Except Fault (List Char × List Char)
  | [] => .error .malformed
  | '"' :: rest => .ok ([], rest)
  | '\\' :: 'u' :: a :: b :: c :: d :: rest =>
      withChar? (Text.codePoint? [a, b, c, d]) (basicString rest)
  | '\\' :: 'U' :: a :: b :: c :: d :: e :: f :: g :: h :: rest =>
      withChar? (Text.codePoint? [a, b, c, d, e, f, g, h]) (basicString rest)
  | '\\' :: c :: rest => withChar? (escape? c) (basicString rest)
  | c :: rest => if isIllegal c then .error .malformed else withChar? (some c) (basicString rest)

/-- Where a reader of a string over several lines stands: in the text; after a backslash, before the
end of its line; or in the gap that such a backslash opens. -/
inductive LineState
  | text
  | ending
  | gap
  deriving DecidableEq, Repr

/-- The rest of a string in three double quotes. Up to two more quotes before the closing ones
belong to the text. -/
def basicLines (state : LineState) : List Char → Except Fault (List Char × List Char)
  | [] => .error .malformed
  | c :: cs =>
      if state = .ending then
        if c = '\n' then basicLines .gap cs
        else if isBlank c then basicLines .ending cs
        else .error .malformed
      else if state = .gap ∧ (isBlank c ∨ c = '\n') then basicLines .gap cs
      else
        match c, cs with
        | '"', '"' :: '"' :: '"' :: '"' :: rest => .ok (['"', '"'], rest)
        | '"', '"' :: '"' :: '"' :: rest => .ok (['"'], rest)
        | '"', '"' :: '"' :: rest => .ok ([], rest)
        | '\\', 'u' :: x₁ :: x₂ :: x₃ :: x₄ :: rest =>
            withChar? (Text.codePoint? [x₁, x₂, x₃, x₄]) (basicLines .text rest)
        | '\\', 'U' :: x₁ :: x₂ :: x₃ :: x₄ :: x₅ :: x₆ :: x₇ :: x₈ :: rest =>
            withChar? (Text.codePoint? [x₁, x₂, x₃, x₄, x₅, x₆, x₇, x₈]) (basicLines .text rest)
        | '\\', e :: rest =>
            if e = '\n' then basicLines .gap rest
            else if isBlank e then basicLines .ending rest
            else withChar? (escape? e) (basicLines .text rest)
        | c, rest =>
            if isIllegalInLines c then .error .malformed
            else withChar? (some c) (basicLines .text rest)

/-- The rest of a string in single quotes on one line. -/
def literalString : List Char → Except Fault (List Char × List Char)
  | [] => .error .malformed
  | '\'' :: rest => .ok ([], rest)
  | c :: rest => if isIllegal c then .error .malformed else withChar? (some c) (literalString rest)

/-- The rest of a string in three single quotes. Up to two more quotes before the closing ones
belong to the text. -/
def literalLines : List Char → Except Fault (List Char × List Char)
  | [] => .error .malformed
  | '\'' :: '\'' :: '\'' :: '\'' :: '\'' :: rest => .ok (['\'', '\''], rest)
  | '\'' :: '\'' :: '\'' :: '\'' :: rest => .ok (['\''], rest)
  | '\'' :: '\'' :: '\'' :: rest => .ok ([], rest)
  | c :: rest =>
      if isIllegalInLines c then .error .malformed else withChar? (some c) (literalLines rest)

/-- The text without a line feed right at its start. -/
def dropLineFeed : List Char → List Char
  | '\n' :: cs => cs
  | cs => cs

/-- A string in any of the four forms. -/
def string? : List Char → Option (Except Fault (List Char × List Char))
  | '"' :: '"' :: '"' :: cs => some (basicLines .text (dropLineFeed cs))
  | '"' :: cs => some (basicString cs)
  | '\'' :: '\'' :: '\'' :: cs => some (literalLines (dropLineFeed cs))
  | '\'' :: cs => some (literalString cs)
  | _ => none

/-! Numbers -/

/-- The number of characters in digits of a kind with single underscores between them, after the
first digit. -/
def laterDigits (isDigit : Char → Bool) : List Char → Nat
  | '_' :: c :: cs => if isDigit c then 2 + laterDigits isDigit cs else 0
  | c :: cs => if isDigit c then 1 + laterDigits isDigit cs else 0
  | [] => 0

/-- The number of characters in digits of a kind with single underscores between them. -/
def digitGroup (isDigit : Char → Bool) : List Char → Nat
  | c :: cs => if isDigit c then 1 + laterDigits isDigit cs else 0
  | [] => 0

def withoutUnderscores (cs : List Char) : List Char := cs.filter (· ≠ '_')

/-- The number that digits to a base denote. -/
def ofDigitsBase (base : Nat) (cs : List Char) : Nat :=
  cs.foldl (fun n c => base * n + (Text.hexValue? c).getD 0) 0

/-- An integer after a mark for its base. -/
def basedInt? (base : Nat) (isDigit : Char → Bool) (cs : List Char) :
    Option (Value × List Char) :=
  let n := digitGroup isDigit cs
  if n = 0 then none
  else some (.int (ofDigitsBase base (withoutUnderscores (cs.take n))), cs.drop n)

/-- The length of the integer part of a decimal number: a zero, or digits that begin with none. -/
def wholeLength : List Char → Nat
  | '0' :: _ => 1
  | cs => digitGroup Char.isDigit cs

/-- The length of a point with digits after it. -/
def fractionLength : List Char → Nat
  | '.' :: cs => if digitGroup Char.isDigit cs = 0 then 0 else 1 + digitGroup Char.isDigit cs
  | _ => 0

/-- The length of an exponent. -/
def exponentLength : List Char → Nat
  | c :: cs =>
      let sign := Lexer.signLength cs
      let digits := digitGroup Char.isDigit (cs.drop sign)
      if (c = 'e' ∨ c = 'E') ∧ 0 < digits then 1 + sign + digits else 0
  | [] => 0

/-- A decimal integer or a float. -/
def decimal? (cs : List Char) : Option (Except Fault (Value × List Char)) :=
  let sign := Lexer.signLength cs
  let negative := cs.head? = some '-'
  let body := cs.drop sign
  let whole := wholeLength body
  if whole = 0 then none
  else
    let fraction := fractionLength (body.drop whole)
    let length := whole + fraction + exponentLength (body.drop (whole + fraction))
    let written := withoutUnderscores (body.take length)
    let rest := body.drop length
    if length = whole then
      if Numeral.maxDigits < written.length then some (.error (.longInteger written.length))
      else
        let n : Int := Decimal.ofDigits written
        some (.ok (.int (if negative then -n else n), rest))
    else some (.ok (.float (Numeral.negateIf negative (Decimal.readLiteral written)), rest))

/-- A number. -/
def number? : List Char → Option (Except Fault (Value × List Char))
  | cs =>
      let based : Option (Value × List Char) :=
        match cs with
        | '0' :: 'x' :: digits => basedInt? 16 (fun c => (Text.hexValue? c).isSome) digits
        | '0' :: 'b' :: digits => basedInt? 2 (fun c => c = '0' || c = '1') digits
        | '0' :: 'o' :: digits => basedInt? 8 (fun c => '0' ≤ c && c ≤ '7') digits
        | _ => none
      match based with
      | some r => some (.ok r)
      | none => decimal? cs

/-- The words for infinity and NaN, with an optional sign. -/
def special? (cs : List Char) : Option (Value × List Char) :=
  let sign := Lexer.signLength cs
  let negative := cs.head? = some '-'
  match cs.drop sign with
  | 'i' :: 'n' :: 'f' :: rest => some (.float (Numeral.negateIf negative (1 / 0)), rest)
  | 'n' :: 'a' :: 'n' :: rest => some (.float (0 / 0), rest)
  | _ => none

/-! Dates and times -/

/-- A number of exactly `n` digits. -/
def fixedDigits? (n : Nat) (cs : List Char) : Option (Nat × List Char) :=
  let ds := cs.take n
  if ds.length = n ∧ ds.all Char.isDigit then some (Decimal.ofDigits ds, cs.drop n) else none

/-- A number of two digits within bounds. -/
def twoDigits? (low high : Nat) (cs : List Char) : Option (Nat × List Char) := do
  let (n, rest) ← fixedDigits? 2 cs
  if low ≤ n ∧ n ≤ high then some (n, rest) else none

def expect? (c : Char) : List Char → Option (List Char)
  | d :: rest => if d = c then some rest else none
  | [] => none

/-- The microseconds of a fraction of a second, of which the first six digits count. -/
def microseconds : List Char → Nat × List Char
  | '.' :: cs =>
      let ds := cs.takeWhile Char.isDigit
      if ds.isEmpty then (0, '.' :: cs)
      else
        let six := ds.take 6
        (Decimal.ofDigits (six ++ Decimal.zeros (6 - six.length)), cs.dropWhile Char.isDigit)
  | cs => (0, cs)

def time? (cs : List Char) : Option (Time × List Char) := do
  let (hour, cs) ← twoDigits? 0 23 cs
  let (minute, cs) ← twoDigits? 0 59 (← expect? ':' cs)
  let (second, cs) ← twoDigits? 0 59 (← expect? ':' cs)
  let (microsecond, cs) := microseconds cs
  some (⟨hour, minute, second, microsecond⟩, cs)

/-- An offset from universal time in minutes, if there is one. -/
def offset (cs : List Char) : Option Int × List Char :=
  let read (sign : Int) (cs : List Char) : Option (Int × List Char) := do
    let (hours, cs) ← twoDigits? 0 23 cs
    let (minutes, cs) ← twoDigits? 0 59 (← expect? ':' cs)
    some (sign * (60 * hours + minutes), cs)
  let found : Option (Int × List Char) :=
    match cs with
    | 'Z' :: rest => some (0, rest)
    | 'z' :: rest => some (0, rest)
    | '+' :: rest => read 1 rest
    | '-' :: rest => read (-1) rest
    | _ => none
  match found with
  | some (minutes, rest) => (some minutes, rest)
  | none => (none, cs)

def date? (cs : List Char) : Option (Date × List Char) := do
  let (year, cs) ← fixedDigits? 4 cs
  let (month, cs) ← twoDigits? 1 12 (← expect? '-' cs)
  let (day, cs) ← twoDigits? 1 31 (← expect? '-' cs)
  some (⟨year, month, day⟩, cs)

/-- The time after a date and its separator, if both are there. -/
def laterTime? : List Char → Option (Time × List Char)
  | c :: cs => if c = 'T' ∨ c = 't' ∨ c = ' ' then time? cs else none
  | [] => none

/-- A date, with or without a time. What looks like a date must be in the calendar. -/
def moment? (cs : List Char) : Option (Except Fault (Value × List Char)) := do
  let (date, rest) ← date? cs
  if !date.isValid then some (.error .malformed)
  else
    match laterTime? rest with
    | none => some (.ok (.date date, rest))
    | some (time, rest) =>
        let (offset, rest) := offset rest
        some (.ok (.moment date time offset, rest))

/-! Scalars -/

/-- A boolean, a string, a date or time, or a number. -/
def scalar (cs : List Char) : Except Fault (Value × List Char) :=
  match string? cs, cs with
  | some r, _ => r.map fun (text, rest) => (.text (String.ofList text), rest)
  | none, 't' :: 'r' :: 'u' :: 'e' :: rest => .ok (.bool true, rest)
  | none, 'f' :: 'a' :: 'l' :: 's' :: 'e' :: rest => .ok (.bool false, rest)
  | none, cs =>
      match moment? cs with
      | some r => r
      | none =>
          match time? cs with
          | some (time, rest) => .ok (.time time, rest)
          | none =>
              match number? cs with
              | some r => r
              | none =>
                  match special? cs with
                  | some r => .ok r
                  | none => .error .malformed

end FlightCurve.Toml

/-!
Markup in console texts. A tag is a word in brackets; it sets the style of what follows and is not
shown. Backslashes before a tag are read in pairs, and each pair is shown as one backslash; one that
is left over makes the tag a part of the text. A backslash before a bracket that begins no tag is
not shown.
-/

namespace FlightCurve.Console.Markup

/-- Whether a character may follow the opening bracket of a tag. -/
def beginsTag (c : Char) : Bool := c.isLower || c = '#' || c = '/' || c = '@'

/-- The length of the tag that a text begins with, or zero. A tag ends at the first closing bracket
and holds no other opening one. -/
def tagLength : List Char → Nat
  | '[' :: c :: cs =>
      let inner := cs.takeWhile fun d => d ≠ '[' && d ≠ ']'
      if beginsTag c ∧ (cs.drop inner.length).head? = some ']' then inner.length + 3 else 0
  | _ => 0

/-- A part of a marked-up text: a character, or a tag with its brackets and the backslashes before
it. -/
inductive Part
  | char (c : Char)
  | tag (backslashes : Nat) (text : List Char)
  deriving DecidableEq, Repr

/-- The number of backslashes that a text begins with. -/
def leadingBackslashes (cs : List Char) : Nat := (cs.takeWhile (· = '\\')).length

def parts : List Char → List Part
  | [] => []
  | c :: cs =>
      let n := leadingBackslashes (c :: cs)
      let length := tagLength ((c :: cs).drop n)
      if 0 < length then
        .tag n (((c :: cs).drop n).take length) :: parts (cs.drop (n + length - 1))
      else .char c :: parts cs
termination_by cs => cs.length
decreasing_by all_goals simp only [List.length_drop, List.length_cons]; omega

def backslashes (n : Nat) : List Char := List.replicate n '\\'

/-- A text with one more backslash before each tag than twice what is there, so that every tag is a
part of the text. -/
def escapeTags (cs : List Char) : List Char :=
  (parts cs).flatMap fun
    | .char c => [c]
    | .tag n tag => backslashes (2 * n + 1) ++ tag

/-- A text with its tags escaped. A single backslash at its end is doubled, so that a tag may follow
it; with more backslashes there, the last ones count for that tag. -/
def escape (cs : List Char) : List Char :=
  let escaped := escapeTags cs
  if leadingBackslashes escaped.reverse = 1 then escaped ++ backslashes 1 else escaped

/-- Drops the backslashes before brackets. -/
def dropBackslashes : List Char → List Char
  | '\\' :: '[' :: cs => '[' :: dropBackslashes cs
  | c :: cs => c :: dropBackslashes cs
  | [] => []

/-- The characters before the first tag, and the pieces of text after it. -/
def piecesFrom : List Part → List Char × List (List Char)
  | [] => ([], [])
  | .char c :: rest =>
      let (first, pieces) := piecesFrom rest
      (c :: first, pieces)
  | .tag n tag :: rest =>
      let (first, pieces) := piecesFrom rest
      ([], backslashes (n / 2) :: (if n % 2 = 1 then tag else []) :: first :: pieces)

/-- The pieces of text between the tags and the backslashes of a marked-up text. -/
def pieces (cs : List Char) : List (List Char) :=
  let (first, pieces) := piecesFrom (parts cs)
  (first :: pieces).map dropBackslashes

/-- A text in a style, between an opening and a closing tag. -/
def styled (style : String) (cs : List Char) : List Char :=
  ("[" ++ style ++ "]").toList ++ cs ++ ("[/" ++ style ++ "]").toList

end FlightCurve.Console.Markup

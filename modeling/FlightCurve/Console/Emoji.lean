import FlightCurve.Console.Emoji.Names
import FlightCurve.Text.Blank
import FlightCurve.Text.Hexadecimal

/-!
Picture codes in texts. A name between two colons stands for the picture of that name; after the
name there may be a word for the way in which the picture is drawn. A code with a name that no
picture has stays as it is.
-/

namespace FlightCurve.Console.Emoji

/-- The marks after a character that is drawn as text or as a picture. -/
def textMark : Char := Char.ofNat 0xfe0e

def pictureMark : Char := Char.ofNat 0xfe0f

/-- The small letter of an ASCII or Latin letter; so are the signs for kelvin and for ångström. -/
def toLower (c : Char) : Char :=
  if c.isUpper then c.toLower
  else if 0xc0 ≤ c.toNat ∧ c.toNat ≤ 0xde ∧ c.toNat ≠ 0xd7 then Char.ofNat (c.toNat + 0x20)
  else if c.toNat = 0x212a then 'k'
  else if c.toNat = 0x212b then 'å'
  else c

/-- The text before an ending that it has. -/
def beforeEnding? (ending cs : List Char) : Option (List Char) :=
  if ending.isSuffixOf cs then some (cs.take (cs.length - ending.length)) else none

/-! Names -/

/-- The picture with a name among the entries. -/
def named? (entries : List String) (name : List Char) : Option (List Char) :=
  entries.findSome? fun entry =>
    match entry.splitOn " " with
    | [] => none
    | code :: names =>
        if names.contains (String.ofList name) then
          (code.splitOn "-").mapM fun digits => Text.codePoint? digits.toList
        else none

/-- A letter of the name of a region as it stands in a flag. -/
def regionLetter (c : Char) : Char := Char.ofNat (0x1f1e6 + (c.toNat - 'a'.toNat))

/-- The flag of a region. -/
def flag? (region : List Char) : Option (List Char) :=
  flags.findSome? fun entry =>
    match entry.splitOn " " with
    | [letters, name] =>
        if name = String.ofList region then some (letters.toList.map regionLetter) else none
    | _ => none

/-- The endings of names for the tones of skin. -/
def tones : List (String × Char) :=
  [("_light_skin_tone", Char.ofNat 0x1f3fb), ("_medium-light_skin_tone", Char.ofNat 0x1f3fc),
   ("_medium_skin_tone", Char.ofNat 0x1f3fd), ("_medium-dark_skin_tone", Char.ofNat 0x1f3fe),
   ("_dark_skin_tone", Char.ofNat 0x1f3ff)]

/-- A picture with a tone of skin: it follows the first character, in place of a picture mark. -/
def withTone (tone : Char) : List Char → List Char
  | first :: rest => first :: tone :: (if rest.head? = some pictureMark then rest.tail else rest)
  | [] => []

/-- The picture with a name that ends in a tone of skin. -/
def toned? (name : List Char) : Option (List Char) :=
  tones.findSome? fun (ending, tone) => do
    let person ← beforeEnding? ending.toList name
    (named? people person).map (withTone tone)

/-- The picture with a name. A flag has the name of its region, which words may precede. -/
def find? (name : List Char) : Option (List Char) :=
  let region := if "flag_for_".toList.isPrefixOf name then name.drop 9 else name
  (named? pictures name).or ((named? people name).or ((flag? region).or (toned? name)))

/-! Codes -/

/-- What is shown for the text between two colons. -/
def shown (code : List Char) : List Char :=
  let (name, marks) :=
    match beforeEnding? "-emoji".toList code, beforeEnding? "-text".toList code with
    | some name, _ => (name, [pictureMark])
    | none, some name => (name, [textMark])
    | none, none => (code, [])
  match find? (name.map toLower) with
  | some picture => picture ++ marks
  | none => ':' :: (code ++ [':'])

/-- The text after a colon up to the next one, if no blank is in between. -/
def code? (cs : List Char) : Option (List Char) :=
  let code := cs.takeWhile fun c => c ≠ ':' && !Text.isBlank c
  if (cs.drop code.length).head? = some ':' then some code else none

/-- A text with pictures in place of their codes. -/
def replace : List Char → List Char
  | [] => []
  | c :: cs =>
      if c = ':' then
        match code? cs with
        | some code => shown code ++ replace (cs.drop (code.length + 1))
        | none => c :: replace cs
      else c :: replace cs
termination_by cs => cs.length
decreasing_by all_goals simp only [List.length_drop, List.length_cons]; omega

end FlightCurve.Console.Emoji

/-!
Blank characters of all scripts, and texts without the blanks around them.
-/

namespace FlightCurve.Text

/-- The ranges of code points of white space: the separators, and the controls for line, tab and
page. -/
def whiteSpaceRanges : List (Nat × Nat) :=
  [(0x9, 0xd), (0x20, 0x20), (0x85, 0x85), (0xa0, 0xa0), (0x1680, 0x1680), (0x2000, 0x200a),
   (0x2028, 0x2029), (0x202f, 0x202f), (0x205f, 0x205f), (0x3000, 0x3000)]

def isWhiteSpace (c : Char) : Bool :=
  whiteSpaceRanges.any fun (low, high) => low ≤ c.toNat && c.toNat ≤ high

/-- White space, or one of the four information separators. -/
def isBlank (c : Char) : Bool :=
  isWhiteSpace c || (0x1c ≤ c.toNat && c.toNat ≤ 0x1f)

/-- The text without the characters of a class at its end. -/
def trimRight (isIn : Char → Bool) (cs : List Char) : List Char :=
  (cs.reverse.dropWhile isIn).reverse

/-- The text without the characters of a class at either end. -/
def trim (isIn : Char → Bool) (cs : List Char) : List Char :=
  trimRight isIn (cs.dropWhile isIn)

end FlightCurve.Text

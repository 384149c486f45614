import FlightCurve.Console.CellWidth
import FlightCurve.Console.Emoji
import FlightCurve.Console.Markup

/-!
How the console shows a text: pictures stand in place of their codes, controls that would move the
cursor are left out, and tabs go to the next multiple of eight columns.
-/

namespace FlightCurve.Console

/-- Bell, backspace, the vertical tab, the form feed and the carriage return. -/
def isStripped (c : Char) : Bool :=
  c.toNat = 7 || c.toNat = 8 || c.toNat = 11 || c.toNat = 12 || c.toNat = 13

def tabWidth : Nat := 8

/-- A text from a column on, with blanks for its tabs. -/
def expandTabs (column : Nat) : List Char → List Char
  | [] => []
  | c :: cs =>
      if c = '\t' then
        let width := tabWidth - column % tabWidth
        List.replicate width ' ' ++ expandTabs (column + width) cs
      else if c = '\n' then c :: expandTabs 0 cs
      else c :: expandTabs (column + cellWidth c) cs

/-- The characters that the console shows for a text with markup. -/
def shownChars (cs : List Char) : List Char :=
  expandTabs 0 (((Markup.pieces cs).flatMap Emoji.replace).filter fun c => !isStripped c)

def escaped (text : String) : String := String.ofList (Markup.escape text.toList)

/-- What is shown for a text that is escaped. -/
def shown (text : String) : String := String.ofList (shownChars (Markup.escape text.toList))

/-- What is shown for a text that is escaped, in a style. -/
def shownIn (style text : String) : String :=
  String.ofList (shownChars (Markup.styled style (Markup.escape text.toList)))

/-- What is shown for a text that is escaped, where more text follows. -/
def shownStart (text : String) : String :=
  String.ofList (shownChars (Markup.escapeTags text.toList))

end FlightCurve.Console

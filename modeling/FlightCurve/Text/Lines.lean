/-!
Lines of a source. Only the line feed ends a line, so a text with `n` line feeds has `n + 1` lines,
the last of which may be empty.
-/

namespace FlightCurve.Text

def splitLines : List Char → List (List Char)
  | [] => [[]]
  | c :: cs =>
      if c = '\n' then [] :: splitLines cs
      else
        match splitLines cs with
        | [] => [[c]]
        | line :: lines => (c :: line) :: lines

theorem splitLines_ne_nil (cs : List Char) : splitLines cs ≠ [] := by
  cases cs with
  | nil => simp [splitLines]
  | cons c cs =>
      simp only [splitLines]
      split
      · simp
      · split <;> simp

/-- The text of a line, counted from 1. -/
def line? (source : String) (number : Int) : Option String :=
  if number < 1 then none
  else (splitLines source.toList)[number.toNat - 1]?.map String.ofList

end FlightCurve.Text

import FlightCurve.Console.Text
import FlightCurve.Text.Lines

/-!
Tables on the console: a title, a heading and rows in frames. Cells are right-aligned, each column
is as wide as its longest cell, and the title is centred.
-/

namespace FlightCurve.Console

/-- A table. The title has markup, and every row has a cell for each heading. -/
structure Table where
  title : String
  headings : List String
  rows : List (List String)

namespace Table

def spaces (n : Nat) : String := String.ofList (List.replicate n ' ')

/-- The width of the longest cell in each column. -/
def widths (t : Table) : List Nat :=
  t.rows.foldl (fun ws row => ws.zipWith (fun w cell => max w cell.length) row)
    (t.headings.map String.length)

/-- The marks at the left, between columns and at the right of a line. -/
structure Frame where
  left : String
  middle : String
  right : String

def Frame.join (f : Frame) (cells : List String) : String :=
  f.left ++ String.intercalate f.middle cells ++ f.right

/-- A horizontal line, with the given mark for each place of a cell and of the spaces around it. -/
def rule (frame : Frame) (mark : Char) (widths : List Nat) : String :=
  frame.join (widths.map fun w => String.ofList (List.replicate (w + 2) mark))

/-- A row with its cells at the right of their columns. -/
def row (frame : Frame) (widths : List Nat) (cells : List String) : String :=
  frame.join (widths.zipWith (fun w cell => " " ++ spaces (w - cell.length) ++ cell ++ " ") cells)

/-- The width of the table with its frames. -/
def width (widths : List Nat) : Nat := widths.foldl (fun n w => n + w + 3) 1

/-- A line in the middle of a width; of an odd number of spaces the last one is at the right. -/
def centred (width : Nat) (line : List Char) : String :=
  let text := Text.trimRight Text.isBlank line
  let room := width - text.length
  spaces (room / 2) ++ String.ofList text ++ spaces (room - room / 2)

def lines (t : Table) : List String :=
  let ws := t.widths
  (Text.splitLines (shownChars t.title.toList)).map (centred (width ws)) ++
    [ rule ⟨"┏", "┳", "┓"⟩ '━' ws,
      row ⟨"┃", "┃", "┃"⟩ ws t.headings,
      rule ⟨"┡", "╇", "┩"⟩ '━' ws ] ++
    t.rows.map (row ⟨"│", "│", "│"⟩ ws) ++
    [rule ⟨"└", "┴", "┘"⟩ '─' ws]

end Table

end FlightCurve.Console

import Mathlib.Data.List.DropRight
import FlightCurve.Proofs.Positions
import FlightCurve.Text.Lines

/-!
Lines and columns. The line of a place is read off the line feeds that stand before it, and its
column off the characters behind the last of them, so that the line of the source that a place names
can be cut at its column.
-/

namespace FlightCurve

namespace Text

/-- The lines before a line feed and the lines after it. -/
theorem splitLines_append_feed (cs ds : List Char) :
    splitLines (cs ++ '\n' :: ds) = splitLines cs ++ splitLines ds := by
  induction cs with
  | nil => simp [splitLines]
  | cons c cs ih =>
      rw [List.cons_append, splitLines, ih, splitLines]
      by_cases hc : c = '\n'
      · rw [if_pos hc, if_pos hc, List.cons_append]
      · rw [if_neg hc, if_neg hc]
        cases hlines : splitLines cs with
        | nil => exact absurd hlines (splitLines_ne_nil cs)
        | cons line lines => rfl

/-- There is one line more than there are line feeds. -/
theorem length_splitLines (cs : List Char) : (splitLines cs).length = cs.count '\n' + 1 := by
  induction cs with
  | nil => rfl
  | cons c cs ih =>
      rw [splitLines]
      by_cases hc : c = '\n'
      · rw [if_pos hc, List.length_cons, ih, hc, List.count_cons_self]
      · rw [if_neg hc, List.count_cons_of_ne hc, ← ih]
        cases hlines : splitLines cs with
        | nil => exact absurd hlines (splitLines_ne_nil cs)
        | cons line lines => rfl

/-- The first line ends before the first line feed. -/
theorem head?_splitLines (cs : List Char) :
    (splitLines cs).head? = some (cs.takeWhile (· ≠ '\n')) := by
  induction cs with
  | nil => rfl
  | cons c cs ih =>
      rw [splitLines]
      by_cases hc : c = '\n'
      · rw [if_pos hc, List.takeWhile_cons_of_neg (by simpa using hc)]
        rfl
      · rw [if_neg hc, List.takeWhile_cons_of_pos (by simpa using hc)]
        cases hlines : splitLines cs with
        | nil => exact absurd hlines (splitLines_ne_nil cs)
        | cons line lines =>
            rw [hlines, List.head?_cons, Option.some.injEq] at ih
            rw [List.head?_cons, ih]

/-- The characters behind the last line feed. -/
def lastLine (cs : List Char) : List Char := cs.rtakeWhile (· ≠ '\n')

theorem length_lastLine_le (cs : List Char) : (lastLine cs).length ≤ cs.length :=
  (List.rtakeWhile_suffix (· ≠ '\n') cs).length_le

theorem not_mem_lastLine (cs : List Char) : '\n' ∉ lastLine cs := by
  intro h
  simpa using List.mem_rtakeWhile_imp h

/-- Behind the last line feed stands the last line, and the whole text if there is none. -/
theorem eq_lastLine_or (cs : List Char) :
    lastLine cs = cs ∨ ∃ before, cs = before ++ '\n' :: lastLine cs := by
  have hcs : cs.rdropWhile (· ≠ '\n') ++ lastLine cs = cs :=
    List.rdropWhile_append_rtakeWhile
  by_cases hempty : cs.rdropWhile (· ≠ '\n') = []
  · rw [hempty, List.nil_append] at hcs
    exact .inl hcs
  · have hlast := List.rdropWhile_last_not (· ≠ '\n') cs hempty
    refine .inr ⟨(cs.rdropWhile (· ≠ '\n')).dropLast, ?_⟩
    have hfeed : (cs.rdropWhile (· ≠ '\n')).getLast hempty = '\n' := by simpa using hlast
    conv_lhs => rw [← hcs, ← List.dropLast_append_getLast hempty, hfeed, List.append_assoc]
    rfl

/-- The line in which the characters `after` go on: what stands before them on it, and their own up
to the next line feed. -/
theorem splitLines_append (before after : List Char) :
    (splitLines (before ++ after))[before.count '\n']? =
      some (lastLine before ++ after.takeWhile (· ≠ '\n')) := by
  have hline : ∀ c ∈ lastLine before, decide (c ≠ '\n') = true :=
    fun _ hc => decide_eq_true fun h => not_mem_lastLine before (h ▸ hc)
  have hfirst : (splitLines (lastLine before ++ after))[0]? =
      some (lastLine before ++ after.takeWhile (· ≠ '\n')) := by
    rw [← List.head?_eq_getElem?, head?_splitLines,
      List.takeWhile_append_of_pos hline]
  rcases eq_lastLine_or before with h | ⟨passed, h⟩
  · have hcount : before.count '\n' = 0 :=
      List.count_eq_zero.2 (h ▸ not_mem_lastLine before)
    rw [hcount]
    rw [h] at hfirst ⊢
    exact hfirst
  · have hcount : before.count '\n' = (splitLines passed).length := by
      rw [length_splitLines]
      conv_lhs => rw [h]
      rw [List.count_append, List.count_cons_self,
        List.count_eq_zero.2 (not_mem_lastLine before)]
    have hsplit : splitLines (before ++ after) =
        splitLines passed ++ splitLines (lastLine before ++ after) := by
      conv_lhs => rw [h]
      rw [List.append_assoc, List.cons_append, splitLines_append_feed]
    rw [hsplit, hcount, List.getElem?_append_right (Nat.le_refl _), Nat.sub_self]
    exact hfirst

/-- The line that holds the place `offset` begins at `first`: at the front of the text or right
behind a line feed, with no line feed in between. -/
structure BeginsLine (cs : List Char) (offset first : Nat) : Prop where
  le : first ≤ offset
  behind : first = 0 ∨ cs[first - 1]? = some '\n'
  unbroken : ∀ i, first ≤ i → i < offset → cs[i]? ≠ some '\n'

theorem beginsLine_lastLine (before after : List Char) :
    BeginsLine (before ++ after) before.length (before.length - (lastLine before).length) := by
  have hunbroken : ∀ passed, before = passed ++ lastLine before →
      ∀ i, passed.length ≤ i → i < before.length → (before ++ after)[i]? ≠ some '\n' := by
    intro passed h i hle hlt hfeed
    rw [List.getElem?_append_left hlt, h, List.getElem?_append_right hle] at hfeed
    exact not_mem_lastLine before (List.mem_of_getElem? hfeed)
  rcases eq_lastLine_or before with h | ⟨passed, h⟩
  · rw [h, Nat.sub_self]
    exact ⟨Nat.zero_le _, .inl rfl, hunbroken [] h.symm⟩
  · have hlength := congrArg List.length h
    rw [List.length_append, List.length_cons] at hlength
    have hfirst : before.length - (lastLine before).length = passed.length + 1 := by omega
    rw [hfirst]
    refine ⟨by omega, .inr ?_, ?_⟩
    · rw [h, Nat.add_sub_cancel, List.append_assoc, List.getElem?_append_right (Nat.le_refl _),
        Nat.sub_self]
      rfl
    · have := hunbroken (passed ++ ['\n']) (by simpa using h)
      simpa using this

end Text

namespace Position

/-- The column is counted from the last line feed passed. -/
theorem column_advance (before : List Char) :
    (start.advance before).column = (Text.lastLine before).length + 1 := by
  induction before using List.reverseRecOn with
  | nil => rfl
  | append_singleton before c ih =>
      rw [advance_append, advance_cons, advance_nil, next, Text.lastLine]
      by_cases hc : c = '\n'
      · rw [if_pos hc, List.rtakeWhile_concat_neg _ _ _ (by simpa using hc)]
        rfl
      · rw [if_neg hc, List.rtakeWhile_concat_pos _ _ _ (by simpa using hc), List.length_append]
        exact congrArg (· + 1) ih

/-- The line that a place names, cut at its column. -/
theorem line?_advance {source : String} {before after : List Char}
    (h : source.toList = before ++ after) :
    Text.line? source (start.advance before).line =
      some (String.ofList (Text.lastLine before ++ after.takeWhile (· ≠ '\n'))) := by
  have hline : (start.advance before).line = before.count '\n' + 1 := by
    rw [line_advance, Nat.add_comm]
    rfl
  rw [hline, Text.line?, if_neg (by omega), h, Int.toNat_natCast, Nat.add_sub_cancel,
    Text.splitLines_append, Option.map_some]

end Position

end FlightCurve

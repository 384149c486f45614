import Mathlib.Data.List.Basic
import FlightCurve.Proofs.Lossless
import FlightCurve.Proofs.StatusLine

/-!
Places of errors, and the marks under a snippet. Every error that is raised in a source names a line
of it, shows exactly this line, and names a column of it; a name that the error is about stands
there. Where the place is formatted, the marks begin under the character at the column.

The lines are those between line feeds, as `List.splitOn` has them, both for the source and for the
formatted place.
-/

namespace FlightCurve

namespace Text

theorem splitLines_eq_splitOn (cs : List Char) : splitLines cs = cs.splitOn '\n' := by
  induction cs with
  | nil => rfl
  | cons c cs ih =>
      rw [splitLines, List.splitOn_cons_eq_if_modifyHead, ← ih]
      by_cases hc : c = '\n'
      · simp [hc]
      · rw [if_neg hc, if_neg (by simpa using hc)]
        cases hlines : splitLines cs with
        | nil => exact absurd hlines (splitLines_ne_nil cs)
        | cons line lines => rfl

/-- A line ends at once where the text does or a line feed stands. -/
theorem takeWhile_feed_eq_nil_iff (cs : List Char) :
    cs.takeWhile (· ≠ '\n') = [] ↔ cs.head? = some '\n' ∨ cs = [] := by
  cases cs with
  | nil => simp
  | cons c cs => by_cases hc : c = '\n' <;> simp [hc]

theorem head?_takeWhile_feed {cs : List Char} (h : cs.takeWhile (· ≠ '\n') ≠ []) :
    (cs.takeWhile (· ≠ '\n')).head? = cs.head? := by
  cases cs with
  | nil => rfl
  | cons c cs =>
      by_cases hc : c = '\n'
      · simp [hc] at h
      · simp [hc]

end Text

/-! Places in a source -/

/-- The place of an error is true: it is that of `p`, where the error was raised, and shows the line
of `p`. -/
structure CompileError.ShownAt (e : CompileError) (source : String) (p : Position)
    (snippet : String) : Prop where
  place : e.place = ⟨p.line, p.column, some snippet⟩
  raised : RaisedAt source p
  one_le_line : 1 ≤ p.line
  line_le : p.line ≤ (source.toList.splitOn '\n').length
  snippet_eq : (source.toList.splitOn '\n')[p.line - 1]? = some snippet.toList
  one_le_column : 1 ≤ p.column
  column_le : p.column ≤ snippet.length + 1
  /-- The column lies behind the line only where the line or the source ends. -/
  behind_iff : p.column = snippet.length + 1 ↔
    source.toList[p.offset]? = some '\n' ∨ p.offset = source.length
  /-- A name that the error is about stands at the column. -/
  named : ∀ name, e.cause.name? = some name → name.toList <+: snippet.toList.drop (p.column - 1)
  /-- The formatted place has three lines. The marks begin under the character of the snippet at the
  column, which is the one of the source at the place. -/
  marked : ∃ location margin marks : List Char,
    e.place.format.toList.splitOn '\n' = [location, margin ++ snippet.toList, marks] ∧
      marks.idxOf '^' = margin.length + (p.column - 1) ∧ marks.idxOf '^' < marks.length ∧
      (p.column ≤ snippet.length →
        (margin ++ snippet.toList)[marks.idxOf '^']? = source.toList[p.offset]?)

namespace Position.StandsIn

variable {p : Position} {source : String}

/-- The line of a place, cut at its column. -/
theorem exists_line (h : p.StandsIn source) : ∃ before after, source.toList = before ++ after ∧
    p.offset = before.length ∧ p.line = before.count '\n' + 1 ∧
    p.column = (Text.lastLine before).length + 1 ∧
    Text.line? source p.line =
      some (String.ofList (Text.lastLine before ++ after.takeWhile (· ≠ '\n'))) := by
  obtain ⟨before, after, hsource, rfl⟩ := h
  refine ⟨before, after, hsource, offset_start_advance before, ?_, column_advance before,
    line?_advance hsource⟩
  rw [line_advance, Nat.add_comm]
  rfl

end Position.StandsIn

/-! Marks -/

namespace Place

theorem newline_not_mem_toDigits (n : Nat) : '\n' ∉ Nat.toDigits 10 n := by
  intro h
  exact absurd (Nat.isDigit_of_mem_toDigits (by decide) (by decide) h) (by decide)

/-- The lines of a formatted place: the location, the snippet behind its margin, and the marks. -/
theorem splitOn_format (line : Nat) {column : Nat} {snippet : String} (hcolumn : 1 ≤ column)
    (hsnippet : '\n' ∉ snippet.toList) :
    ∃ location margin : List Char,
      (Place.mk line column (some snippet)).format.toList.splitOn '\n' =
        [location, margin ++ snippet.toList,
          List.replicate (margin.length + (column - 1)) ' ' ++ ['^', '^', '^']] := by
  let p : Place := ⟨line, column, some snippet⟩
  let location := Nat.toDigits 10 line ++ ':' :: Nat.toDigits 10 column
  have hnumber : ∀ n : Nat, (n : Int).repr.toList = Nat.toDigits 10 n := fun n => Nat.toList_repr
  have hindent : p.indent.toNat = p.margin.toList.length + (column - 1) := by
    rw [indent, String.length_toList]
    change ((p.margin.length : Int) + column - 1).toNat = _
    omega
  have hformat : p.format.toList = location ++ '\n' :: ((p.margin.toList ++ snippet.toList) ++
      '\n' :: (List.replicate (p.margin.toList.length + (column - 1)) ' ' ++ ['^', '^', '^'])) := by
    simp [format, p, location, hnumber, ← hindent]
  have hmargin : '\n' ∉ p.margin.toList := by
    simp [margin, padLeft, p, hnumber, newline_not_mem_toDigits]
  refine ⟨location, p.margin.toList, ?_⟩
  rw [hformat, List.splitOn_append_cons_self_of_not_mem, List.splitOn_append_cons_self_of_not_mem,
    List.splitOn_eq_singleton]
  · simp
  · simp [hmargin, hsnippet]
  · simp [location, newline_not_mem_toDigits]

theorem idxOf_marks (n : Nat) : (List.replicate n ' ' ++ ['^', '^', '^']).idxOf '^' = n := by
  rw [List.idxOf_append_of_notMem (by simp), List.length_replicate]
  rfl

end Place

/-! Errors -/

section Errors

variable {source : String} {e : CompileError}

/-- The error is raised at `p`, and its name is a word of the source there. -/
structure CompileError.RaisedWith (e : CompileError) (source : String) (p : Position) : Prop where
  place : e.place = .ofPosition source p
  raised : RaisedAt source p
  named : ∀ name, e.cause.name? = some name → ∃ s, scan source = .ok s ∧
    ∃ tok ∈ s.withEof, tok.kind = .ident ∧ tok.text = name ∧ tok.position = p

theorem CompileError.RaisedWith.shownAt {p : Position} (h : e.RaisedWith source p) :
    ∃ snippet, e.ShownAt source p snippet := by
  obtain ⟨before, after, hsource, hoffset, hline, hcolumn, htext⟩ := h.raised.standsIn.exists_line
  let shown := Text.lastLine before ++ after.takeWhile (· ≠ '\n')
  have hplace : e.place = ⟨p.line, p.column, some (String.ofList shown)⟩ := by
    rw [h.place, Place.ofPosition, htext]
  have hlength : (String.ofList shown).length =
      (Text.lastLine before).length + (after.takeWhile (· ≠ '\n')).length := by
    rw [String.length_ofList, List.length_append]
  have hlines : (source.toList.splitOn '\n').length = source.toList.count '\n' + 1 := by
    rw [← Text.splitLines_eq_splitOn, Text.length_splitLines]
  have hchar : source.toList[p.offset]? = after.head? := by
    rw [hsource, hoffset, List.getElem?_append_right (Nat.le_refl _), Nat.sub_self,
      List.head?_eq_getElem?]
  have hone : 1 ≤ p.column := by omega
  refine ⟨_, ⟨hplace, h.raised, by omega, ?_, ?_, hone, by omega, ?_, ?_, ?_⟩⟩
  · rw [hlines, hline, hsource, List.count_append]
    omega
  · rw [hline, Nat.add_sub_cancel, String.toList_ofList, hsource, ← Text.splitLines_eq_splitOn,
      Text.splitLines_append]
  · have hend : p.offset = source.length ↔ after = [] := by
      rw [hoffset, ← String.length_toList, hsource, List.length_append, ← List.length_eq_zero_iff]
      omega
    rw [hchar, hend, ← Text.takeWhile_feed_eq_nil_iff, ← List.length_eq_zero_iff, hcolumn, hlength]
    omega
  · intro name hname
    obtain ⟨s, hs, tok, htok, hkind, rfl, rfl⟩ := h.named name hname
    obtain ⟨before', after', hsource', hposition⟩ := exists_text_of_scan hs htok
    have hbefore : before'.length = before.length := by
      rw [← hoffset, hposition, Position.offset_start_advance]
    obtain ⟨rfl, hafter⟩ := List.append_inj (hsource'.symm.trans hsource) hbefore
    have hword : ∀ c ∈ tok.text.toList, decide (c ≠ '\n') = true := fun c hc =>
      decide_eq_true fun hfeed => not_mem_text_of_scan hs htok (by simp [hkind]) (hfeed ▸ hc)
    rw [String.toList_ofList, hcolumn, Nat.add_sub_cancel, List.drop_left, ← hafter,
      List.takeWhile_append_of_pos hword]
    exact List.prefix_append _ _
  · have hfeed : '\n' ∉ (String.ofList shown).toList := by
      rw [String.toList_ofList, List.mem_append, not_or]
      refine ⟨Text.not_mem_lastLine before, fun hmem => ?_⟩
      simpa using List.mem_takeWhile_imp hmem
    obtain ⟨location, margin, hformat⟩ := Place.splitOn_format p.line hone hfeed
    refine ⟨location, margin, _, hplace ▸ hformat, Place.idxOf_marks _, ?_, fun hle => ?_⟩
    · rw [Place.idxOf_marks]
      simp
    · rw [Place.idxOf_marks, List.getElem?_append_right (by omega), Nat.add_sub_cancel_left,
        String.toList_ofList, hcolumn, Nat.add_sub_cancel, List.getElem?_append_right (by omega),
        Nat.sub_self, hchar, ← List.head?_eq_getElem?]
      refine Text.head?_takeWhile_feed fun hnil => ?_
      rw [hlength, hcolumn, hnil, List.length_nil] at hle
      omega

/-- Errors without a name stand where they are raised. -/
theorem CompileError.RaisedIn.raisedWith (h : e.RaisedIn source)
    (hcause : ∃ detail, e.cause = .malformed detail) : ∃ p, e.RaisedWith source p := by
  obtain ⟨cause, p, rfl, hp⟩ := h
  obtain ⟨detail, hdetail⟩ := hcause
  refine ⟨p, rfl, hp, fun name hname => ?_⟩
  rw [hdetail] at hname
  cases hname

theorem raisedWith_of_scanSource (h : scanSource source = .error e) :
    ∃ p, e.RaisedWith source p := by
  refine (raisedIn_of_scanSource h).raisedWith ?_
  obtain ⟨c, _, rfl⟩ := Outcome.mapError_eq_error_iff.1 h
  exact ⟨_, rfl⟩

theorem raisedWith_of_parseExpr {axis : Option String} (h : parseExpr source axis = .error e) :
    ∃ p, e.RaisedWith source p :=
  (raisedIn_of_parseExpr h).raisedWith (malformed_of_read h)

theorem raisedWith_of_parseAssignments (h : parseAssignments source = .error e) :
    ∃ p, e.RaisedWith source p :=
  (raisedIn_of_parseAssignments h).raisedWith (malformed_of_read h)

/-- A name without a meaning is an identifier among the tokens. -/
theorem raisedWith_of_findSome? {s : Scanned} (hs : scan source = .ok s)
    {occurrences : List Occurrence} (hstates : s.States occurrences) {fault : Placed Cause}
    (h : occurrences.findSome? Occurrence.fault? = some fault) :
    ∃ p, (CompileError.inSource source fault).RaisedWith source p := by
  obtain ⟨o, ho, hfault⟩ := List.exists_of_findSome?_eq_some h
  obtain ⟨cause, hcause, rfl⟩ := Option.map_eq_some_iff.1 hfault
  obtain ⟨tok, htok, hident, hplaced⟩ := hstates.exists_token ho
  have hposition : tok.position = o.word.position := congrArg Placed.position hplaced
  have hmem : tok ∈ s.withEof := List.mem_append_left _ htok
  refine ⟨o.word.position, rfl, .inl ⟨s, hs, tok, hmem, hposition⟩, fun name hname => ?_⟩
  refine ⟨s, hs, tok, hmem, hident, ?_, hposition⟩
  rw [show (CompileError.inSource source ⟨cause, _⟩).cause = cause from rfl,
    (Occurrence.offends_of_cause? hcause).name?] at hname
  exact (congrArg Placed.value hplaced).trans (Option.some.inj hname)

theorem raisedWith_of_compileAssignments (h : compileAssignments source = .error e) :
    ∃ p, e.RaisedWith source p := by
  rcases Outcome.bind_eq_error_iff.1 h with hread | ⟨as, has, h⟩
  · exact raisedWith_of_parseAssignments hread
  · obtain ⟨fault, hfault, rfl⟩ := Outcome.mapError_eq_error_iff.1 h
    obtain ⟨s, hs⟩ := exists_scan_of_read has
    exact raisedWith_of_findSome? hs (states_of_parseAssignments hs has)
      ((Function.error?_ofAssignments Scope.binds_initial as).symm.trans
        (Outcome.error?_eq_some_iff.2 hfault))

theorem raisedWith_of_compileExpr {scope : Scope} {axis : Option String}
    (h : compileExpr source scope axis = .error e) : ∃ p, e.RaisedWith source p := by
  rcases Outcome.bind_eq_error_iff.1 h with hread | ⟨tree, htree, h⟩
  · exact raisedWith_of_parseExpr hread
  · obtain ⟨fault, hfault, rfl⟩ := Outcome.mapError_eq_error_iff.1 h
    obtain ⟨s, hs⟩ := exists_scan_of_read htree
    obtain ⟨known, hknown⟩ := scope.exists_known
    exact raisedWith_of_findSome? hs (states_of_parseExpr hs htree known)
      ((Function.error?_ofTree hknown tree).symm.trans (Outcome.error?_eq_some_iff.2 hfault))

/-- Every error of scanning, of reading and of compiling a source has a true place in it, and its
marks stand under this place. -/
theorem exists_shownAt
    (h : scanSource source = .error e ∨ (∃ axis, parseExpr source axis = .error e) ∨
      parseAssignments source = .error e ∨ compileAssignments source = .error e ∨
      ∃ scope axis, compileExpr source scope axis = .error e) :
    ∃ p snippet, e.ShownAt source p snippet := by
  have hraised : ∃ p, e.RaisedWith source p := by
    rcases h with hscan | ⟨axis, hexpr⟩ | hclause | hassigns | ⟨scope, axis, hcompile⟩
    · exact raisedWith_of_scanSource hscan
    · exact raisedWith_of_parseExpr hexpr
    · exact raisedWith_of_parseAssignments hclause
    · exact raisedWith_of_compileAssignments hassigns
    · exact raisedWith_of_compileExpr hcompile
  obtain ⟨p, hp⟩ := hraised
  exact ⟨p, hp.shownAt⟩

/-- A name that is unknown in the second line of a clause. -/
theorem exists_shownAt_second_line :
    ∃ e p snippet, compileAssignments "u = t;\nv = (u + w)" = .error e ∧
      e.ShownAt "u = t;\nv = (u + w)" p snippet ∧ e.cause.name? = some "w" ∧ p.line = 2 ∧
      p.column = 10 ∧ snippet = "v = (u + w)" := by
  have herror : Outcome.error? (compileAssignments "u = t;\nv = (u + w)") =
      some ⟨.unknownVariable "w", ⟨2, 10, some "v = (u + w)"⟩, none⟩ := by
    decide +kernel
  have houtcome := Outcome.error?_eq_some_iff.1 herror
  obtain ⟨p, snippet, hshown⟩ := exists_shownAt (.inr (.inr (.inr (.inl houtcome))))
  have hline : p.line = 2 := Int.ofNat_inj.1 (congrArg Place.line hshown.place).symm
  have hcolumn : p.column = 10 := Int.ofNat_inj.1 (congrArg Place.column hshown.place).symm
  have hsnippet : snippet = "v = (u + w)" :=
    (Option.some.inj (congrArg Place.snippet hshown.place)).symm
  exact ⟨_, p, snippet, houtcome, hshown, rfl, hline, hcolumn, hsnippet⟩

end Errors

end FlightCurve

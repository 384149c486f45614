import Mathlib.Data.List.TakeWhile
import FlightCurve.Curve.Submission
import FlightCurve.Proofs.FirstFault.Clause
import FlightCurve.Proofs.FirstFault.CurveExpression
import FlightCurve.Proofs.Offences

/-!
Where the status line says that an error is. Every error of a submission is raised at a token of
one of its sources, at the end of it or at a character that begins no token, and has the place of
this. The status line names the part and the column, and the line only for the where clause.

The main statement reads the location back off the status line. It is the place of the error for the
where clause; for a coordinate it is, exactly if no line feed stands before that place.
-/

namespace FlightCurve

/-! Where errors are raised -/

/-- A token of the source stands at `p`, or the source ends there, or the first character that begins
no token stands there. -/
def RaisedAt (source : String) (p : Position) : Prop :=
  (∃ s, scan source = .ok s ∧ ∃ tok ∈ s.withEof, tok.position = p) ∨
    ∃ c, scan source = .error c ∧ c.position = p

namespace RaisedAt

variable {source : String} {p : Position}

theorem standsIn (h : RaisedAt source p) : p.StandsIn source := by
  rcases h with ⟨s, hs, tok, htok, rfl⟩ | ⟨c, hc, rfl⟩
  · exact standsIn_of_scan hs htok
  · exact standsIn_of_scan_error hc

end RaisedAt

/-- The source is rejected for something that is wrong at a token, at the end or at a character. -/
def CompileError.RaisedIn (e : CompileError) (source : String) : Prop :=
  ∃ cause p, e = .inSource source ⟨cause, p⟩ ∧ RaisedAt source p

section Sources

variable {source : String} {e : CompileError}

theorem raisedIn_of_scanSource (h : scanSource source = .error e) : e.RaisedIn source := by
  obtain ⟨c, hc, rfl⟩ := Outcome.mapError_eq_error_iff.1 h
  exact ⟨_, c.position, rfl, .inr ⟨c, hc, rfl⟩⟩

theorem raisedIn_of_stuck {s : Scanned} (h : scan source = .ok s) {stuck : Stuck}
    (hrest : ∀ tok ∈ stuck.rest, tok ∈ s.tokens) :
    (CompileError.inSource source (stuck.fault s)).RaisedIn source := by
  refine ⟨_, (s.current stuck.rest).position, rfl, .inl ⟨s, h, s.current stuck.rest, ?_, rfl⟩⟩
  obtain ⟨after, hafter⟩ := s.append_eof stuck.rest
  have hmem : s.current stuck.rest ∈ stuck.rest ++ [Token.eof s.finish] :=
    hafter ▸ List.mem_cons_self
  rcases List.mem_append.1 hmem with hmem | hmem
  · exact List.mem_append_left _ (hrest _ hmem)
  · exact List.mem_append_right _ hmem

theorem raisedIn_of_parseAssignments (h : parseAssignments source = .error e) :
    e.RaisedIn source := by
  rcases Outcome.bind_eq_error_iff.1 h with hscan | ⟨s, hs, _⟩
  · exact raisedIn_of_scanSource hscan
  · have hs := Outcome.mapError_eq_ok_iff.1 hs
    obtain ⟨stuck, hstuck, rfl⟩ := (parseAssignments_eq_error_iff hs).1 h
    obtain ⟨taken, htaken, _⟩ := Reader.assignments_stuck (spelled_dropWhere hs) hstuck
    refine raisedIn_of_stuck hs fun tok htok => (clauseTokens_sublist s.tokens).mem ?_
    exact (Reader.dropWhere_suffix _).mem (htaken ▸ List.mem_append_right taken htok)

theorem raisedIn_of_parseExpr {axis : Option String} (h : parseExpr source axis = .error e) :
    e.RaisedIn source := by
  rcases Outcome.bind_eq_error_iff.1 h with hscan | ⟨s, hs, _⟩
  · exact raisedIn_of_scanSource hscan
  · have hs := Outcome.mapError_eq_ok_iff.1 hs
    obtain ⟨stuck, hstuck, rfl⟩ := (parseExpr_eq_error_iff hs).1 h
    have hsuffix := Reader.suffix_of_curveExpr (spelled_withoutNewlines hs) hstuck
    exact raisedIn_of_stuck hs fun tok htok => (List.mem_filter.1 (hsuffix.mem htok)).1

/-- Names that offend stand at tokens. -/
theorem raisedIn_of_reportsFirstOffence {s : Scanned} (hs : scan source = .ok s)
    {occurrences : List Occurrence} (hstates : s.States occurrences) {α : Type}
    {outcome : Except CompileError α} (hreports : ReportsFirstOffence source outcome occurrences)
    (h : outcome = .error e) : e.RaisedIn source := by
  obtain ⟨o, ho, cause, _, _, _, rfl, _⟩ := hreports.first e h
  obtain ⟨tok, htok, _, hplaced⟩ := hstates.exists_token ho
  refine ⟨cause, _, rfl, .inl ⟨s, hs, tok, List.mem_append_left _ htok, ?_⟩⟩
  exact congrArg Placed.position hplaced

theorem raisedIn_of_compileAssignments (h : compileAssignments source = .error e) :
    e.RaisedIn source := by
  cases has : parseAssignments source with
  | error e' =>
      rw [compileAssignments, has] at h
      cases h
      exact raisedIn_of_parseAssignments has
  | ok as =>
      obtain ⟨s, hs⟩ := exists_scan_of_read has
      exact raisedIn_of_reportsFirstOffence hs (states_of_parseAssignments hs has)
        (compileAssignments_reportsFirstOffence has) h

theorem raisedIn_of_compileExpr {scope : Scope} (hscope : scope.Reachable) {axis : Option String}
    (h : compileExpr source scope axis = .error e) : e.RaisedIn source := by
  cases htree : parseExpr source axis with
  | error e' =>
      rw [compileExpr, htree] at h
      cases h
      exact raisedIn_of_parseExpr htree
  | ok tree =>
      obtain ⟨s, hs⟩ := exists_scan_of_read htree
      exact raisedIn_of_reportsFirstOffence hs (states_of_parseExpr hs htree scope.known)
        (compileExpr_reportsFirstOffence htree hscope) h

theorem Scope.Reachable.ofAssignments {scope last : Scope} (hscope : scope.Reachable)
    {as : List Assignment} {fs : List Function}
    (h : Function.ofAssignments scope as = .ok (fs, last)) : last.Reachable := by
  induction as generalizing scope fs with
  | nil =>
      cases h
      exact hscope
  | cons a as ih =>
      rw [Function.ofAssignments] at h
      obtain ⟨⟨f, next⟩, ha, h⟩ := Outcome.bind_eq_ok_iff.1 h
      obtain ⟨⟨gs, last'⟩, hgs, h⟩ := Outcome.bind_eq_ok_iff.1 h
      cases h
      obtain rfl := Function.scope_of_ofAssignment ha
      exact ih (hscope.define _).settle hgs

theorem Scope.reachable_of_compileAssignments {fs : List Function} {scope : Scope}
    (h : compileAssignments source = .ok (fs, scope)) : scope.Reachable := by
  obtain ⟨as, _, h⟩ := Outcome.bind_eq_ok_iff.1 h
  exact Scope.Reachable.initial.ofAssignments (Outcome.mapError_eq_ok_iff.1 h)

end Sources

/-- The sources of a submission under the names that players see. -/
def Sources.parts (s : Sources) : List (String × String) :=
  [(wherePart, s.clause), (xPart, s.x), (yPart, s.y)]

/-- The error of a submission is raised in the part that it names. -/
theorem Sources.raisedIn_of_compile {s : Sources} {e : CompileError} (h : s.compile = .error e) :
    ∃ part source cause p, (part, source) ∈ s.parts ∧ RaisedAt source p ∧
      e = (CompileError.inSource source ⟨cause, p⟩).withPart part := by
  unfold Sources.compile at h
  split at h
  · rename_i e' hclause
    cases h
    obtain ⟨cause, p, rfl, hp⟩ := raisedIn_of_compileAssignments hclause
    exact ⟨wherePart, s.clause, cause, p, by simp [parts], hp, rfl⟩
  · rename_i assigns scope hclause
    have hscope := Scope.reachable_of_compileAssignments hclause
    split at h
    · rename_i e' hx
      cases h
      obtain ⟨cause, p, rfl, hp⟩ := raisedIn_of_compileExpr hscope hx
      exact ⟨xPart, s.x, cause, p, by simp [parts], hp, rfl⟩
    · split at h
      · rename_i e' hy
        cases h
        obtain ⟨cause, p, rfl, hp⟩ := raisedIn_of_compileExpr hscope hy
        exact ⟨yPart, s.y, cause, p, by simp [parts], hp, rfl⟩
      · cases h

/-! Reading a status line -/

/-- A line and a column of the source of a part. -/
structure Location where
  part : String
  line : Nat
  column : Nat
  deriving DecidableEq, Repr

namespace Location

/-- A number at the front of a text, and what stands after it. -/
def leadingNumber (cs : List Char) : Nat × List Char :=
  (Nat.ofDigitChars 10 (cs.takeWhile Char.isDigit) 0, cs.dropWhile Char.isDigit)

/-- The location in a line of which the column and what follows it are left. -/
def ofColumn? (part : String) (line : Nat) (cs : List Char) : Option Location :=
  ((leadingNumber cs).2.dropPrefix? "): ".toList).map fun _ => ⟨part, line, (leadingNumber cs).1⟩

def ofLine? (part : String) (cs : List Char) : Option Location :=
  ((leadingNumber cs).2.dropPrefix? " col ".toList).bind (ofColumn? part (leadingNumber cs).1)

def inClause? (cs : List Char) : Option Location :=
  (cs.dropPrefix? "Error in 'where' (line ".toList).bind (ofLine? wherePart)

/-- The location in a line about a coordinate. No line is named, so the first one is meant. -/
def inCoordinate? (part : String) (cs : List Char) : Option Location :=
  (cs.dropPrefix? ("Error in " ++ part ++ " (col ").toList).bind (ofColumn? part 1)

/-- The location that a status line shows. -/
def ofStatus? (status : String) : Option Location :=
  (inClause? status.toList).or
    ((inCoordinate? xPart status.toList).or (inCoordinate? yPart status.toList))

theorem leadingNumber_append (n : Nat) {rest : List Char}
    (hrest : ∀ c ∈ rest.head?, c.isDigit = false) :
    leadingNumber ((toString n).toList ++ rest) = (n, rest) := by
  have hdigits : ∀ c ∈ (toString n).toList, c.isDigit = true := by
    intro c hc
    rw [Nat.toString_eq_repr, Nat.toList_repr] at hc
    exact Nat.isDigit_of_mem_toDigits (by decide) (by decide) hc
  have hstop : rest.takeWhile Char.isDigit = [] ∧ rest.dropWhile Char.isDigit = rest := by
    cases rest with
    | nil => exact ⟨rfl, rfl⟩
    | cons c rest =>
        have hc := hrest c rfl
        exact ⟨List.takeWhile_cons_of_neg (by simp [hc]), List.dropWhile_cons_of_neg (by simp [hc])⟩
  rw [leadingNumber, List.takeWhile_append_of_pos hdigits, List.dropWhile_append_of_pos hdigits,
    hstop.1, hstop.2, List.append_nil, Nat.toString_eq_repr, Nat.toList_repr,
    Nat.ofDigitChars_toDigits (by decide) (by decide)]

theorem dropPrefix?_append (front rest : List Char) :
    (front ++ rest).dropPrefix? front = some rest :=
  List.dropPrefix?_eq_some_iff.2 ⟨front, rfl, by simp⟩

theorem ofColumn?_append (part : String) (line column : Nat) (message : List Char) :
    ofColumn? part line ((toString column).toList ++ ("): ".toList ++ message)) =
      some ⟨part, line, column⟩ := by
  have hstop : ∀ c ∈ ("): ".toList ++ message).head?, c.isDigit = false := by
    intro c hc
    cases hc
    rfl
  rw [ofColumn?, leadingNumber_append column hstop, dropPrefix?_append]
  rfl

theorem ofLine?_append (part : String) (line column : Nat) (message : List Char) :
    ofLine? part ((toString line).toList ++ (" col ".toList ++
      ((toString column).toList ++ ("): ".toList ++ message)))) = some ⟨part, line, column⟩ := by
  have hstop : ∀ c ∈ (" col ".toList ++
      ((toString column).toList ++ ("): ".toList ++ message))).head?, c.isDigit = false := by
    intro c hc
    cases hc
    rfl
  rw [ofLine?, leadingNumber_append line hstop, dropPrefix?_append, Option.bind_some,
    ofColumn?_append]

end Location

section Rendering

variable (source : String) (cause : Cause) (p : Position)

theorem CompileError.describe_clause :
    ((inSource source ⟨cause, p⟩).withPart wherePart).describe.toList =
      "Error in 'where' (line ".toList ++ ((toString p.line).toList ++ (" col ".toList ++
        ((toString p.column).toList ++ ("): ".toList ++ cause.message.toList)))) := by
  have hline : toString (p.line : Int) = toString p.line := rfl
  have hcolumn : toString (p.column : Int) = toString p.column := rfl
  simp [describe, withPart, inSource, Place.ofPosition, wherePart, hline, hcolumn]

theorem CompileError.describe_coordinate {part : String} (hwhere : part ≠ wherePart)
    (hnamed : part ≠ "") :
    ((inSource source ⟨cause, p⟩).withPart part).describe.toList =
      ("Error in " ++ part ++ " (col ").toList ++
        ((toString p.column).toList ++ ("): ".toList ++ cause.message.toList)) := by
  have hcolumn : toString (p.column : Int) = toString p.column := rfl
  simp [describe, withPart, inSource, Place.ofPosition, hwhere, hnamed, hcolumn]

/-- The location that is shown has the column of the error, and its line for the where clause. -/
theorem Location.ofStatus?_describe {part : String} (hpart : part ∈ [wherePart, xPart, yPart]) :
    ofStatus? ((CompileError.inSource source ⟨cause, p⟩).withPart part).describe =
      some ⟨part, if part = wherePart then p.line else 1, p.column⟩ := by
  have hcoordinate : ∀ part rest, inCoordinate? part
      (("Error in " ++ part ++ " (col ").toList ++ ((toString p.column).toList ++
        ("): ".toList ++ rest))) = some ⟨part, 1, p.column⟩ := by
    intro part rest
    rw [inCoordinate?, dropPrefix?_append, Option.bind_some, ofColumn?_append]
  simp only [List.mem_cons, List.not_mem_nil, or_false] at hpart
  rcases hpart with rfl | rfl | rfl
  · rw [ofStatus?, CompileError.describe_clause, inClause?, dropPrefix?_append, Option.bind_some,
      ofLine?_append]
    rfl
  · rw [ofStatus?, CompileError.describe_coordinate _ _ _ (by decide) (by decide), hcoordinate]
    rfl
  · rw [ofStatus?, CompileError.describe_coordinate _ _ _ (by decide) (by decide), hcoordinate]
    rfl

end Rendering

/-! Submissions -/

/-- Reading the location off the status line of a submission that is rejected. The error is raised
in the part that is named, at the column that is named, and for the where clause at the line that is
named. For a coordinate no line is named, and the first line is the right one exactly if no line
feed stands before the place of the error. -/
theorem Submission.status_shows_location (s : Sources) {e : CompileError}
    (h : (submit s).outcome = .error e) :
    ∃ part source p, (part, source) ∈ s.parts ∧ e.part = some part ∧ RaisedAt source p ∧
      p.StandsIn source ∧ e.place = .ofPosition source p ∧
      Location.ofStatus? (submit s).status =
        some ⟨part, if part = wherePart then p.line else 1, p.column⟩ ∧
      (Location.ofStatus? (submit s).status = some ⟨part, p.line, p.column⟩ ↔
        part = wherePart ∨ '\n' ∉ source.toList.take p.offset) := by
  obtain ⟨part, source, cause, p, hpart, hp, rfl⟩ := Sources.raisedIn_of_compile h
  have hlabel : part ∈ [wherePart, xPart, yPart] := List.mem_map_of_mem (f := Prod.fst) hpart
  have hstatus : (submit s).status =
      ((CompileError.inSource source ⟨cause, p⟩).withPart part).describe := by
    rw [status, h]
  have hshown := Location.ofStatus?_describe source cause p hlabel
  refine ⟨part, source, p, hpart, rfl, hp, hp.standsIn, rfl, hstatus ▸ hshown, ?_⟩
  rw [hstatus, hshown, ← hp.standsIn.line_eq_one_iff]
  by_cases hwhere : part = wherePart
  · simp [hwhere]
  · simp [hwhere, eq_comm]

theorem Submission.status_shows_location_clause :
    ∃ e part source p, (submit ⟨"t", "t", "u = t;\nv = (u\n+ w)"⟩).outcome = .error e ∧
      (part, source) ∈ [("where", "u = t;\nv = (u\n+ w)"), ("x(t)", "t"), ("y(t)", "t")] ∧
      e.part = some part ∧ RaisedAt source p ∧ e.place = .ofPosition source p ∧
      Location.ofStatus? (submit ⟨"t", "t", "u = t;\nv = (u\n+ w)"⟩).status =
        some ⟨part, p.line, p.column⟩ ∧ p.line = 3 ∧ p.column = 3 := by
  have herror : Outcome.error? (submit ⟨"t", "t", "u = t;\nv = (u\n+ w)"⟩).outcome =
      some ⟨.unknownVariable "w", ⟨3, 3, some "+ w)"⟩, some "where"⟩ := by
    decide +kernel
  have houtcome := Outcome.error?_eq_some_iff.1 herror
  obtain ⟨part, source, p, hpart, hnamed, hp, _, hplace, _, hshown⟩ :=
    status_shows_location _ houtcome
  have hline : p.line = 3 := Int.ofNat_inj.1 (congrArg Place.line hplace).symm
  have hcolumn : p.column = 3 := Int.ofNat_inj.1 (congrArg Place.column hplace).symm
  have hwhere : part = wherePart := (Option.some.inj hnamed).symm
  exact ⟨_, part, source, p, houtcome, hpart, hnamed, hp, hplace, hshown.2 (.inl hwhere), hline,
    hcolumn⟩

/-- The line of an error in a coordinate is lost where the source spans lines. -/
theorem Submission.status_loses_line :
    ∃ e, (submit ⟨"\nq", "t", ""⟩).outcome = .error e ∧ e.part = some xPart ∧
      e.place = ⟨2, 1, some "q"⟩ ∧
      Location.ofStatus? (submit ⟨"\nq", "t", ""⟩).status = some ⟨xPart, 1, 1⟩ := by
  have herror : Outcome.error? (submit ⟨"\nq", "t", ""⟩).outcome =
      some ⟨.unknownVariable "q", ⟨2, 1, some "q"⟩, some "x(t)"⟩ := by
    decide +kernel
  have houtcome := Outcome.error?_eq_some_iff.1 herror
  refine ⟨_, houtcome, rfl, rfl, ?_⟩
  rw [status, houtcome]
  decide +kernel

end FlightCurve

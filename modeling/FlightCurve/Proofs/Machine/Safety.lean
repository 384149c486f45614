import FlightCurve.Proofs.Machine.Sources
import FlightCurve.Proofs.Scanning

/-!
Reading is safe. Whatever a source says, and whether line feeds separate or not, a machine that
reads it looks up only tokens that are there, never moves back, stays within `maxNesting`
parentheses, takes a token in every expression and in every round of its loops, and comes to an end.
It returns what the readers of the tokens that count return, or is stuck where they are.
-/

namespace FlightCurve

namespace Machine

variable {m : Machine} {root p : Procedure} {st : State}

/-! Runs -/

theorem meets_body (p : Procedure) (st : State) (h : m.Callable p st) :
    m.Meets p st (m.body p) st := by
  cases p with
  | skip => exact meets_skip h
  | current => exact meets_current h
  | ahead index offset => exact meets_ahead h
  | peek offset => exact meets_peek h
  | advance => exact meets_advance h
  | expect kind => exact meets_expect h
  | accept kinds => exact meets_accept h
  | tail c => exact meets_tail h
  | rule r =>
      cases r with
      | chain c => exact meets_chain h
      | signed => exact meets_signed h
      | call => exact meets_call h
      | primary => exact meets_primary h
  | expr => exact meets_expr h
  | separators => exact meets_separators h
  | assignment => exact meets_assignment h
  | assignments => exact meets_assignments h
  | clause => exact meets_clause h
  | atHeader => exact meets_atHeader h
  | advances count => exact meets_advances h
  | curveExpr axis => exact meets_curveExpr h

theorem Finished.step_eq_none {c : Config p} (h : m.Finished p st .none c) : m.step c = none := by
  cases h with
  | returned contract => rfl
  | refused refused => rfl

theorem Finished.outcome_isSome {c : Config p} (h : m.Finished p st .none c) :
    c.outcome.isSome := by
  cases h with
  | returned contract => rfl
  | refused refused => rfl

/-- Nothing goes wrong in a call, and it comes to an end. -/
structure Safe (m : Machine) (p : Procedure) (st : State) : Prop where
  sound : ∀ c, m.Reaches (m.enter p st .none) c → m.Sound c
  ends : ∃ c, m.Reaches (m.enter p st .none) c ∧ c.outcome.isSome

theorem safe_of_callable (h : m.Callable p st) : m.Safe p st where
  sound := fun _ => (leads_of_bodies meets_body p st h .none).along_of_reaches
    fun _ => Finished.step_eq_none
  ends := by
    obtain ⟨c, hreach, hfinished⟩ := (leads_of_bodies meets_body p st h .none).exists_reaches
    exact ⟨c, hreach, hfinished.outcome_isSome⟩

/-- A call at the start comes to this end. -/
def Gives (m : Machine) (p : Procedure) (outcome : Except Cursor.Stop p.Result) : Prop :=
  ∃ c, m.Reaches (m.enter p .start .none) c ∧ c.outcome = some outcome

theorem inBounds_start (m : Machine) : m.InBounds .start := by
  have hlength : m.tokens.length = m.source.tokens.length + 1 := Cursor.length_withEof
  exact ⟨hlength ▸ Nat.succ_pos _, Int.le_refl 0, by decide⟩

/-- A call at the start gives what both of its ends agree with. -/
theorem gives_of_contract {outcome : Except Cursor.Stop p.Result} (h : m.Callable p .start)
    (hreturned : ∀ value st, m.Returned p .start value st → outcome = .ok value)
    (hrefused : ∀ reason tok, m.Refused p .start reason tok →
      outcome = .error (.stuck reason tok)) :
    m.Gives p outcome := by
  obtain ⟨c, hreach, hfinished⟩ := (leads_of_bodies meets_body p .start h .none).exists_reaches
  refine ⟨c, hreach, ?_⟩
  cases hfinished with
  | returned contract => exact congrArg some (hreturned _ _ contract.returned).symm
  | refused refused => exact congrArg some (hrefused _ _ refused).symm

/-! Sources -/

/-- What a machine does with its source. -/
structure ReadsSafely (m : Machine) : Prop where
  /-- Nothing goes wrong when a curve expression is read, -/
  curveExpr : ∀ axis, m.Safe (.curveExpr axis) .start
  /-- or a clause, -/
  clause : m.Safe .clause .start
  /-- or anything else from any place on, however far is looked ahead. -/
  call : ∀ p st, m.Callable p st → m.Safe p st
  /-- Where no line feed separates, a curve expression is read as the readers do, -/
  curveExpr_gives : m.separating = false → ∀ axis, m.Gives (.curveExpr axis)
    ((m.source.curveExpr axis).mapError (.ofStuck m.source))
  /-- and where they do, a clause. -/
  clause_gives : m.separating = true →
    m.Gives .clause (m.source.assignments.mapError (.ofStuck m.source))

/-- Every source that is cut into tokens is read safely to an end, well formed or not. -/
theorem readsSafely_of_scan {source : String} (h : scan source = .ok m.source) :
    m.ReadsSafely := by
  have heof := kind_ne_eof_of_scan h
  have hstart := m.inBounds_start
  have hcurve (axis : Option String) : m.Callable (.curveExpr axis) .start :=
    ⟨hstart, hstart.index_lt⟩
  have hclause : m.Callable .clause .start := ⟨hstart, hstart.index_lt⟩
  refine ⟨fun axis => safe_of_callable (hcurve axis), safe_of_callable hclause,
    fun p st hp => safe_of_callable hp, fun hmode axis => ?_, fun hmode => ?_⟩
  · have hagrees : Cursor.curveExpr m.tokens axis = _ := Cursor.curveExpr_eq heof axis
    refine gives_of_contract (hcurve axis) ?_ ?_
    · intro tree st hreturned
      exact hagrees.symm.trans (hreturned hmode rfl)
    · intro reason tok hrefused
      exact hagrees.symm.trans (hrefused hmode rfl)
  · have hagrees : Cursor.clause m.tokens = _ := Cursor.clause_eq heof
    refine gives_of_contract hclause ?_ ?_
    · intro as st hreturned
      exact hagrees.symm.trans (hreturned hmode rfl)
    · intro reason tok hrefused
      exact hagrees.symm.trans (hrefused hmode rfl)

/-- A parenthesis that nothing closes, with a line feed in it. -/
theorem readsSafely_of_scan_unclosed :
    ∃ s, scan "u = (t\n" = .ok s ∧ ∀ separating, (Machine.mk s separating).ReadsSafely := by
  have h : scan "u = (t\n" = .ok
      ⟨[⟨.ident, "u", ⟨0, 1, 1⟩⟩, ⟨.equals, "=", ⟨2, 1, 3⟩⟩, ⟨.lparen, "(", ⟨4, 1, 5⟩⟩,
        ⟨.ident, "t", ⟨5, 1, 6⟩⟩, ⟨.newline, "\n", ⟨6, 1, 7⟩⟩], ⟨7, 2, 1⟩⟩ := by
    decide +kernel
  exact ⟨_, h, fun separating => readsSafely_of_scan (m := ⟨_, separating⟩) h⟩

end Machine

end FlightCurve

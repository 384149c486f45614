import FlightCurve.Proofs.Machine.Expressions

/-!
Where clauses and curve expressions in a machine. Each may be read whether line feeds separate or
not; what reading by index gives is compared where they separate in a clause, and nowhere in a curve
expression.
-/

namespace FlightCurve

namespace Machine

variable {m : Machine} {p : Procedure} {st st₁ st₂ : State} {reason : Reason} {tok : Token}

/-! Modes -/

theorem Contract.current_eq_of_mode {separating : Bool} (h : m.Contract .current st tok st₁)
    (hmode : m.separating = separating) :
    Cursor.current m.tokens separating st.cursor = .ok (tok, st₁.cursor) := by
  subst hmode
  exact h.returned

theorem reads_zero (m : Machine) :
    m.reads 0 (.chain .sum) = Cursor.expr m.tokens m.separating :=
  rfl

theorem InBounds.depth_eq_zero (h : m.InBounds st) (hstart : st.cursor = ⟨0, 0⟩) :
    st.depth = 0 := by
  have hclosed : st.depth.toNat = 0 := congrArg Cursor.depth hstart
  have hnonneg := h.depth_nonneg
  omega

theorem meets_stuckHere (honward : m.Onward st st₁) (hlevel : 2 < p.level)
    (hrefused : ∀ tok st₂, m.Contract .current st₁ tok st₂ → m.Refused p st reason tok) :
    m.Meets p st (stuckHere reason) st₁ := by
  refine .current honward hlevel ?_
  intro tok st₂ hcurrent
  refine .current (honward.trans hcurrent.onward) hlevel ?_
  intro _ _ _
  exact .stuck (hrefused tok st₂ hcurrent)

/-! Where clauses -/

theorem meets_separators (h : m.Callable .separators st) :
    m.Meets .separators st (m.body .separators) st := by
  refine .lower (.refl h.bounds) (by simp [Procedure.level]) (fun _ _ => False.elim) ?_
  intro tok? st₁ haccept
  cases tok? with
  | none =>
      obtain ⟨tok, hkind, hcurrent⟩ := haccept.returned
      refine .ret ⟨haccept.onward, False.elim, fun hmode => ?_⟩
      rw [hmode] at hcurrent
      exact Cursor.separators_of_other hcurrent (by simpa [Reader.isSeparator] using hkind)
  | some tok =>
      obtain ⟨hkind, here, hcurrent, hadvance⟩ := haccept.returned
      have htook : Took st st₁ := haccept.takes ⟨by decide, rfl⟩
      refine .beyond haccept.onward.bounds htook (by simp [Procedure.level])
        (by simp [Procedure.level]) (fun _ _ => False.elim) ?_
      intro _ st₂ hrest
      refine .ret ⟨haccept.onward.trans hrest.onward, False.elim, fun hmode => ?_⟩
      rw [hmode] at hcurrent hadvance
      rw [Cursor.separators_of_separator hcurrent (by simpa [Reader.isSeparator] using hkind)
        hadvance htook.index_lt h.bounds.index_lt]
      exact hrest.returned hmode

theorem assignment_eq (hmode : m.separating = true) (hdepth : st.depth = 0) :
    Cursor.assignment m.tokens st.cursor = (do
      let (target, next) ← Cursor.expect m.tokens m.separating .ident st.cursor
      let (_, next) ← Cursor.expect m.tokens m.separating .equals next
      let (value, after) ← m.reads st.depth (.chain .sum) next
      .ok (⟨target.placed, value⟩, after)) := by
  rw [hdepth, reads_zero, hmode]
  rfl

theorem meets_assignment (h : m.Callable .assignment st) :
    m.Meets .assignment st (m.body .assignment) st := by
  have hreads (hmode : m.separating = true) (hdepth : st.depth = 0) := assignment_eq hmode hdepth
  refine .lower (.refl h.bounds) (by simp [Procedure.level]) ?_ ?_
  · intro reason tok hrefused
    rw [expect_of_refused hrefused] at hreads
    exact hreads
  · intro target st₁ htarget
    rw [htarget.expect_eq] at hreads
    have htook : Took st st₁ := htarget.takes (show Kind.ident ≠ .eof by decide)
    refine .lower htarget.onward (by simp [Procedure.level]) ?_ ?_
    · intro reason tok hrefused
      simp only [bind, Except.bind, expect_of_refused hrefused] at hreads
      exact hreads
    · intro sign st₂ hsign
      have honward := htarget.onward.trans hsign.onward
      simp only [bind, Except.bind, hsign.expect_eq] at hreads
      refine .lower honward (by simp [Procedure.level]) ?_ ?_
      · intro reason tok hrefused
        rw [reads_of_refused (r := .chain .sum) hrefused honward] at hreads
        exact hreads
      · intro value st₃ hvalue
        rw [reads_of_returned (r := .chain .sum) hvalue.returned honward] at hreads
        exact .ret ⟨honward.trans hvalue.onward,
          fun _ => htook.onward (hsign.onward.trans hvalue.onward), hreads⟩

/-- The round has taken an assignment, so the next one may begin. -/
theorem meets_others {first : Assignment} (h : m.InBounds st) (honward : m.Onward st st₁)
    (htook : Took st st₁)
    (hreads : m.separating = true → st.depth = 0 →
      Cursor.assignments m.tokens st.cursor = (do
        let next ← Cursor.separators m.tokens st₁.cursor
        if st.index < next.index ∧ st.index < m.tokens.length then do
          let others ← Cursor.assignments m.tokens next
          .ok (first :: others)
        else .error .stalled)) :
    m.Meets .assignments st (others first) st₁ := by
  refine .lower honward (by simp [Procedure.level]) (fun _ _ => False.elim) ?_
  intro _ st₂ hpassed
  have honward₂ := honward.trans hpassed.onward
  have htook₂ := htook.onward hpassed.onward
  replace hreads : m.separating = true → st.depth = 0 →
      Cursor.assignments m.tokens st.cursor = (do
        let others ← Cursor.assignments m.tokens st₂.cursor
        .ok (first :: others)) := by
    intro hmode hdepth
    rw [hreads hmode hdepth, hpassed.returned hmode]
    exact if_pos ⟨htook₂.index_lt, h.index_lt⟩
  refine .beyond honward₂.bounds htook₂ (by simp [Procedure.level])
    (by simp [Procedure.level]) ?_ ?_
  · intro reason tok hrefused hmode hdepth
    rw [hreads hmode hdepth, hrefused hmode (honward₂.depth_eq.trans hdepth)]
    rfl
  · intro others st₃ hothers
    refine .ret ⟨honward₂.trans hothers.onward, fun _ => htook₂.onward hothers.onward, ?_⟩
    intro hmode hdepth
    rw [hreads hmode hdepth, hothers.returned hmode (honward₂.depth_eq.trans hdepth)]
    rfl

/-- An assignment is followed by the end or by a separator. -/
theorem meets_afterFirst {first : Assignment} (h : m.InBounds st) (honward : m.Onward st st₁)
    (htook : Took st st₁)
    (hreads : m.separating = true → st.depth = 0 →
      Cursor.assignments m.tokens st.cursor = (do
        let (tok, after) ← Cursor.current m.tokens true st₁.cursor
        if tok.kind = .eof then .ok [first]
        else if Reader.isSeparator tok then do
          let next ← Cursor.separators m.tokens after
          if st.index < next.index ∧ st.index < m.tokens.length then do
            let others ← Cursor.assignments m.tokens next
            .ok (first :: others)
          else .error .stalled
        else .error (.stuck .afterAssignment tok))) :
    m.Meets .assignments st (afterFirst first) st₁ := by
  refine .current honward (by simp [Procedure.level]) ?_
  intro tok st₂ hcurrent
  have honward₂ := honward.trans hcurrent.onward
  have htook₂ := htook.onward hcurrent.onward
  split
  · rename_i heof
    refine .ret ⟨honward₂, fun _ => htook₂, fun hmode hdepth => ?_⟩
    rw [hreads hmode hdepth, hcurrent.current_eq_of_mode hmode]
    exact if_pos heof
  · rename_i heof
    refine .current honward₂ (by simp [Procedure.level]) ?_
    intro tok' st₃ hagain
    obtain ⟨rfl, hstay⟩ := Cursor.eq_of_current hcurrent.returned hagain.returned
    have honward₃ := honward₂.trans hagain.onward
    split
    · rename_i hseparator
      refine meets_others h honward₃ (htook₂.onward hagain.onward) fun hmode hdepth => ?_
      rw [hreads hmode hdepth, hcurrent.current_eq_of_mode hmode, hstay]
      exact (if_neg heof).trans (if_pos hseparator)
    · rename_i hseparator
      refine meets_stuckHere honward₃ (by simp [Procedure.level]) ?_
      intro tok st₄ hlast hmode hdepth
      obtain ⟨rfl, -⟩ := Cursor.eq_of_current hagain.returned hlast.returned
      rw [hreads hmode hdepth, hcurrent.current_eq_of_mode hmode]
      exact (if_neg heof).trans (if_neg hseparator)

theorem meets_assignments (h : m.Callable .assignments st) :
    m.Meets .assignments st (m.body .assignments) st := by
  refine .current (.refl h.bounds) (by simp [Procedure.level]) ?_
  intro tok st₁ hcurrent
  split
  · rename_i heof
    refine .ret ⟨hcurrent.onward, fun hne => absurd rfl hne, fun hmode _ => ?_⟩
    exact Cursor.assignments_of_eof (hcurrent.current_eq_of_mode hmode) heof
  · rename_i heof
    have hreads (hmode : m.separating = true) :=
      Cursor.assignments_of_other (hcurrent.current_eq_of_mode hmode) heof
    have hdepth (hstart : st.depth = 0) : st₁.depth = 0 := hcurrent.onward.depth_eq.trans hstart
    refine .lower hcurrent.onward (by simp [Procedure.level]) ?_ ?_
    · intro reason tok hrefused hmode hstart
      rw [hreads hmode, hrefused hmode (hdepth hstart)]
      rfl
    · intro first st₂ hfirst
      have honward₂ := hcurrent.onward.trans hfirst.onward
      have htook := hcurrent.onward.took (hfirst.takes trivial)
      refine meets_afterFirst h.bounds honward₂ htook fun hmode hstart => ?_
      rw [hreads hmode, hfirst.returned hmode (hdepth hstart)]
      rfl

theorem meets_afterKeyword (h : m.InBounds st) (honward : m.Onward st st₁)
    (hdrop : m.separating = true → Cursor.dropWhere m.tokens st.cursor = .ok st₁.cursor) :
    m.Meets .clause st afterKeyword st₁ := by
  refine .lower honward (by simp [Procedure.level]) (fun _ _ => False.elim) ?_
  intro _ st₂ hpassed
  have honward₂ := honward.trans hpassed.onward
  have hreads : m.separating = true → st.cursor = ⟨0, 0⟩ →
      Cursor.clause m.tokens = Cursor.assignments m.tokens st₂.cursor := by
    intro hmode hstart
    rw [Cursor.clause, ← hstart, hdrop hmode]
    change (Cursor.separators m.tokens st₁.cursor >>= _) = _
    rw [hpassed.returned hmode]
    rfl
  have hdepth (hstart : st.cursor = ⟨0, 0⟩) : st₂.depth = 0 :=
    honward₂.depth_eq.trans (h.depth_eq_zero hstart)
  refine .lower honward₂ (by simp [Procedure.level]) ?_ ?_
  · intro reason tok hrefused hmode hstart
    exact (hreads hmode hstart).trans (hrefused hmode (hdepth hstart))
  · intro as st₃ has
    refine .ret ⟨honward₂.trans has.onward, False.elim, fun hmode hstart => ?_⟩
    exact (hreads hmode hstart).trans (has.returned hmode (hdepth hstart))

/-- The keyword is a name where an equals sign follows it. -/
theorem dropWhere_of_where {seen : Token} (hmode : m.separating = true)
    (hcurrent : m.Contract .current st tok st₁)
    (hwhere : tok.kind = .ident ∧ tok.text = whereKeyword)
    (hseen : m.Contract (.peek 1) st₁ seen st₂) :
    Cursor.dropWhere m.tokens st.cursor =
      if seen.kind = .equals then .ok st₂.cursor
      else (do
        let (_, after) ← Cursor.advance m.tokens m.separating st₂.cursor
        .ok after) := by
  rw [Cursor.dropWhere, hcurrent.current_eq_of_mode hmode]
  refine (if_pos hwhere).trans ?_
  rw [← hmode, hseen.peek_eq]
  rfl

theorem meets_clause (h : m.Callable .clause st) :
    m.Meets .clause st (m.body .clause) st := by
  refine .current (.refl h.bounds) (by simp [Procedure.level]) ?_
  intro tok st₁ hcurrent
  split
  · rename_i hwhere
    refine .peek hcurrent.onward (by simp [Procedure.level]) ?_
    intro seen st₂ hseen
    have honward₂ := hcurrent.onward.trans hseen.onward
    have hdrop (hmode : m.separating = true) := dropWhere_of_where hmode hcurrent hwhere hseen
    split
    · rename_i hequals
      exact meets_afterKeyword h.bounds honward₂ fun hmode => (hdrop hmode).trans (if_pos hequals)
    · rename_i hequals
      refine .advance honward₂ (by simp [Procedure.level]) ?_
      intro tok' st₃ hadvance
      refine meets_afterKeyword h.bounds (honward₂.trans hadvance.onward) fun hmode => ?_
      rw [hdrop hmode, if_neg hequals, hadvance.advance_eq]
      rfl
  · rename_i hwhere
    exact meets_afterKeyword h.bounds hcurrent.onward fun hmode =>
      Cursor.dropWhere_of_other (hcurrent.current_eq_of_mode hmode) hwhere

/-! Curve expressions -/

theorem atHeader_eq (c : Cursor) (hmode : m.separating = false) :
    Cursor.atHeader m.tokens c = (do
      let (name, here) ← Cursor.peek m.tokens m.separating 0 c
      let (left, here) ← Cursor.peek m.tokens m.separating 1 here
      let (parameter, here) ← Cursor.peek m.tokens m.separating 2 here
      let (right, here) ← Cursor.peek m.tokens m.separating 3 here
      let (sign, here) ← Cursor.peek m.tokens m.separating 4 here
      .ok (name.kind = .ident && left.kind = .lparen && parameter.kind = .ident &&
        parameter.text = parameterName && right.kind = .rparen && sign.kind = .equals, here)) := by
  rw [hmode]
  rfl

theorem meets_atHeader (h : m.Callable .atHeader st) :
    m.Meets .atHeader st (m.body .atHeader) st := by
  have hheader (hmode : m.separating = false) := atHeader_eq st.cursor hmode
  refine .peek (.refl h.bounds) (by simp [Procedure.level]) ?_
  intro name st₁ hname
  rw [hname.peek_eq] at hheader
  refine .peek hname.onward (by simp [Procedure.level]) ?_
  intro left st₂ hleft
  have honward₂ := hname.onward.trans hleft.onward
  refine .peek honward₂ (by simp [Procedure.level]) ?_
  intro parameter st₃ hparameter
  have honward₃ := honward₂.trans hparameter.onward
  refine .peek honward₃ (by simp [Procedure.level]) ?_
  intro right st₄ hright
  have honward₄ := honward₃.trans hright.onward
  refine .peek honward₄ (by simp [Procedure.level]) ?_
  intro sign st₅ hsign
  simp only [bind, Except.bind, hleft.peek_eq, hparameter.peek_eq, hright.peek_eq,
    hsign.peek_eq] at hheader
  exact .ret ⟨honward₄.trans hsign.onward, False.elim, hheader⟩

theorem meets_advances {count : Nat} (h : m.Callable (.advances count) st) :
    m.Meets (.advances count) st (m.body (.advances count)) st := by
  cases count with
  | zero => exact .ret ⟨.refl h.bounds, False.elim, fun _ => rfl⟩
  | succ count =>
      have hlevel : 0 < 4 + count ∧ 4 + count < 4 + (count + 1) := by omega
      refine .advance (.refl h.bounds) (Nat.lt_add_right _ (Nat.lt_succ_self 3)) ?_
      intro tok st₁ hadvance
      refine .lower hadvance.onward hlevel (fun _ _ => False.elim) ?_
      intro _ st₂ hrest
      refine .ret ⟨hadvance.onward.trans hrest.onward, False.elim, fun hmode => ?_⟩
      have hnext := hadvance.advance_eq
      rw [hmode] at hnext
      rw [Cursor.advanceBy, hnext]
      exact hrest.returned hmode

theorem wholeExpr_eq (c : Cursor) (hmode : m.separating = false) (hdepth : st.depth = 0) :
    Cursor.wholeExpr m.tokens c = (do
      let (value, after) ← m.reads st.depth (.chain .sum) c
      let (tok, _) ← Cursor.current m.tokens m.separating after
      if tok.kind = .eof then .ok value else .error (.stuck .afterExpression tok)) := by
  rw [hdepth, reads_zero, hmode]
  rfl

theorem meets_wholeExpr {axis : Option String} (h : m.InBounds st) (honward : m.Onward st st₁)
    (hreads : m.separating = false → st.cursor = ⟨0, 0⟩ →
      Cursor.curveExpr m.tokens axis = Cursor.wholeExpr m.tokens st₁.cursor) :
    m.Meets (.curveExpr axis) st wholeExpr st₁ := by
  replace hreads (hmode : m.separating = false) (hstart : st.cursor = ⟨0, 0⟩) :=
    (hreads hmode hstart).trans (wholeExpr_eq _ hmode (h.depth_eq_zero hstart))
  refine .lower honward (by simp [Procedure.level]) ?_ ?_
  · intro reason tok hrefused
    rw [reads_of_refused (r := .chain .sum) hrefused honward] at hreads
    exact hreads
  · intro value st₂ hvalue
    have honward₂ := honward.trans hvalue.onward
    rw [reads_of_returned (r := .chain .sum) hvalue.returned honward] at hreads
    refine .current honward₂ (by simp [Procedure.level]) ?_
    intro tok st₃ hend
    have honward₃ := honward₂.trans hend.onward
    simp only [bind, Except.bind, hend.current_eq] at hreads
    split
    · rename_i heof
      rw [if_pos heof] at hreads
      exact .ret ⟨honward₃, False.elim, hreads⟩
    · rename_i heof
      rw [if_neg heof] at hreads
      refine meets_stuckHere honward₃ (by simp [Procedure.level]) ?_
      intro tok' st₄ hcurrent
      obtain ⟨rfl, -⟩ := Cursor.eq_of_current hend.returned hcurrent.returned
      exact hreads

/-- What follows the name of a header. -/
theorem meets_afterName {axis : Option String} (h : m.InBounds st) (honward : m.Onward st st₁)
    (hreads : m.separating = false → st.cursor = ⟨0, 0⟩ →
      Cursor.curveExpr m.tokens axis =
        (Cursor.advanceBy m.tokens 4 st₁.cursor >>= Cursor.wholeExpr m.tokens)) :
    m.Meets (.curveExpr axis) st (.call (.advances 4) fun _ => wholeExpr) st₁ := by
  refine .lower honward (by simp [Procedure.level]) (fun _ _ => False.elim) ?_
  intro _ st₂ hmoved
  refine meets_wholeExpr h (honward.trans hmoved.onward) fun hmode hstart => ?_
  rw [hreads hmode hstart, hmoved.returned hmode]
  rfl

theorem meets_curveExpr {axis : Option String} (h : m.Callable (.curveExpr axis) st) :
    m.Meets (.curveExpr axis) st (m.body (.curveExpr axis)) st := by
  refine .lower (.refl h.bounds) (by simp [Procedure.level]) (fun _ _ => False.elim) ?_
  intro isHeader st₁ hat
  have hreads : m.separating = false → st.cursor = ⟨0, 0⟩ →
      Cursor.curveExpr m.tokens axis = (
        if isHeader then
          Cursor.header m.tokens axis st₁.cursor >>= Cursor.wholeExpr m.tokens
        else Cursor.wholeExpr m.tokens st₁.cursor) := by
    intro hmode hstart
    rw [Cursor.curveExpr, ← hstart, hat.returned hmode]
    rfl
  split
  · rename_i hheader
    simp only [if_pos hheader] at hreads
    refine .advance hat.onward (by simp [Procedure.level]) ?_
    intro name st₂ hname
    have honward₂ := hat.onward.trans hname.onward
    have hadvance (hmode : m.separating = false) :
        Cursor.advance m.tokens false st₁.cursor = .ok (name, st₂.cursor) :=
      hmode ▸ hname.advance_eq
    cases axis with
    | none =>
        refine meets_afterName h.bounds honward₂ fun hmode hstart => ?_
        rw [hreads hmode hstart, Cursor.header, hadvance hmode]
        rfl
    | some axis =>
        have hnamed : m.separating = false → st.cursor = ⟨0, 0⟩ →
            Cursor.curveExpr m.tokens (some axis) = ((
              if name.text = axis then Cursor.advanceBy m.tokens 4 st₂.cursor
              else .error (.stuck (.otherAxis axis) name)) >>= Cursor.wholeExpr m.tokens) := by
          intro hmode hstart
          rw [hreads hmode hstart, Cursor.header, hadvance hmode]
          rfl
        change m.Meets _ _ (if name.text = axis then _ else _) _
        split
        · rename_i haxis
          refine meets_afterName h.bounds honward₂ fun hmode hstart => ?_
          rw [hnamed hmode hstart, if_pos haxis]
        · rename_i haxis
          refine .stuck fun hmode hstart => ?_
          rw [hnamed hmode hstart, if_neg haxis]
          rfl
  · rename_i hheader
    refine meets_wholeExpr h.bounds hat.onward fun hmode hstart => ?_
    rw [hreads hmode hstart, if_neg hheader]

end Machine

end FlightCurve

import FlightCurve.Proofs.CurveExpression
import FlightCurve.Proofs.FirstFault
import FlightCurve.Proofs.Resuming
import FlightCurve.Proofs.Stopping

/-!
The first fault of a curve expression. The reader takes tokens for as long as they can be continued,
so it is stuck at the first fault, unless a header is complete and names another axis. The main
statement is that the error of a source that is rejected is reported there.
-/

namespace FlightCurve

namespace Reader

/-! Expressions that take up all tokens -/

theorem not_isExpr_of_wholeExpr {input : List Token} (hspelled : ∀ tok ∈ input, tok.Spelled)
    {stuck : Stuck} (h : wholeExpr input = .error stuck) : ¬IsExpr input := by
  intro hexpr
  obtain ⟨e, hfit, hnesting⟩ := hexpr.exists_tree hspelled
  rw [(wholeExpr_eq_ok_iff hspelled).2 ⟨hfit, hnesting⟩] at h
  cases h

/-- Where the reader of a whole expression is stuck, an expression goes on behind the tokens taken.
It is stuck there whatever follows the next token. -/
theorem wholeExpr_stuck {input rest : List Token} {reason : Reason}
    (hspelled : ∀ tok ∈ input, tok.Spelled) (h : wholeExpr input = .error ⟨reason, rest⟩) :
    ∃ taken, input = taken ++ rest ∧
      (∃ more, (∀ tok ∈ more, tok.IsWritten) ∧ IsExpr (taken ++ more)) ∧
      ∀ rest' : List Token, rest'.head? = rest.head? →
        wholeExpr (taken ++ rest') = .error ⟨reason, rest'⟩ := by
  obtain ⟨taken, left, outcome, rfl, hstop⟩ := expr_steady input
  have hread := hstop left rfl
  rw [wholeExpr_eq_run, hread] at h
  cases outcome with
  | error reason' =>
      cases h
      obtain ⟨tree, ⟨taken', more, hinput, hfit, hmore⟩, hnesting⟩ := expr_resumes hspelled hread
      obtain rfl := List.append_cancel_right hinput
      refine ⟨taken, rfl, ⟨more, hmore, isExpr_of_fit hfit hnesting⟩, fun rest' hhead => ?_⟩
      rw [wholeExpr_eq_run, hstop rest' hhead]
      rfl
  | ok tree =>
      obtain ⟨taken', hinput, hfit, hnesting⟩ := expr_sound hspelled hread
      obtain rfl := List.append_cancel_right hinput
      cases left with
      | nil => cases h
      | cons tok after =>
          cases h
          refine ⟨taken, rfl, ⟨[], List.forall_mem_nil _, ?_⟩, fun rest' hhead => ?_⟩
          · rw [List.append_nil]
            exact isExpr_of_fit hfit hnesting
          · rw [wholeExpr_eq_run, hstop rest' hhead]
            obtain ⟨after', rfl⟩ := eq_cons_of_head? hhead
            rfl

/-! Headers -/

/-- Read as an expression, a header is a call that ends before its equals sign. -/
theorem wholeExpr_of_isHeader {axis : Option String} {header : List Token}
    (h : IsHeader axis header) (hspelled : ∀ tok ∈ header, tok.Spelled) (body : List Token) :
    ∃ callee sign, header = callee ++ [sign] ∧
      wholeExpr (header ++ body) = .error ⟨.afterExpression, sign :: body⟩ := by
  cases h with
  | @mk name left parameter right sign ident named lparen word isParameter rparen equals =>
      have hcall : Rule.Derives .call (name :: left :: ([parameter] ++ [right])) :=
        .callOne ident
          (.group lparen (.operand (.operand (.unsigned (.operand (.plain (.name word)))))) rparen)
      have hnesting : mostOpen 0 [name, left, parameter, right] ≤ maxNesting := by
        simp [mostOpen, Token.openAfter, ident, lparen, word, rparen, maxNesting]
      have hexpr : IsExpr [name, left, parameter, right] :=
        ⟨.operand (.operand (.unsigned (.operand hcall))), hnesting⟩
      have hcallee : ∀ tok ∈ [name, left, parameter, right], tok.Spelled := by
        intro tok htok
        exact hspelled tok (List.mem_append_left [sign] htok)
      obtain ⟨tree, hfit, hnesting⟩ := hexpr.exists_tree hcallee
      have hends : (Rule.chain .sum).EndsBefore (sign :: body) := by
        refine Rule.endsBefore_cons ?_
        rw [equals]
        decide
      refine ⟨[name, left, parameter, right], sign, rfl, ?_⟩
      have hread := expr_complete hfit hnesting hends
      change wholeExpr ([name, left, parameter, right] ++ sign :: body) = _
      rw [wholeExpr_eq_run, hread]
      rfl

theorem isHeader_append_of_wholeExpr {axis : Option String} {header body taken rest : List Token}
    (hheader : IsHeader axis header) (hspelled : ∀ tok ∈ header, tok.Spelled)
    (heq : taken ++ rest = header ++ body) {reason : Reason}
    (h : wholeExpr (taken ++ rest) = .error ⟨reason, rest⟩) :
    ∃ sign, header = taken ++ [sign] ∧ rest = sign :: body := by
  obtain ⟨callee, sign, rfl, hread⟩ := wholeExpr_of_isHeader hheader hspelled body
  rw [heq, hread] at h
  cases h
  rw [List.append_assoc] at heq
  obtain rfl := List.append_cancel_right heq
  exact ⟨sign, rfl, rfl⟩

/-! Curve expressions -/

/-- Behind a header the expression decides. -/
theorem fault_of_header {axis : Option String} {header body rest : List Token} {reason : Reason}
    (hheader : IsHeader axis header) (hspelled : ∀ tok ∈ body, tok.Spelled)
    (h : wholeExpr body = .error ⟨reason, rest⟩) :
    ∃ taken, header ++ body = taken ++ rest ∧
      FaultBehind (fun ts => ∃ body, IsCurveExpr axis ts body) taken rest := by
  obtain ⟨taken, rfl, ⟨more, hmore, hexpr⟩, hstop⟩ := wholeExpr_stuck hspelled h
  refine ⟨header ++ taken, (List.append_assoc ..).symm, ⟨more, hmore, taken ++ more, ?_⟩, ?_⟩
  · rw [List.append_assoc]
    exact .of_header hheader hexpr
  · rintro rest' hrest' hhead ⟨body', hcurve⟩
    rw [List.append_assoc] at hcurve
    obtain ⟨rfl, _⟩ := hcurve.eq_body hheader
    have htaken := spelled_append hspelled hrest'
    exact not_isExpr_of_wholeExpr htaken (hstop rest' hhead) hcurve.body

/-- Tokens that begin with no header are read as an expression, and no header begins with those
before the fault and the next token. -/
theorem fault_of_bare {axis : Option String} {input rest : List Token} {reason : Reason}
    (hbare : header? input = none) (hspelled : ∀ tok ∈ input, tok.Spelled)
    (h : wholeExpr input = .error ⟨reason, rest⟩) :
    ∃ taken, input = taken ++ rest ∧
      FaultBehind (fun ts => ∃ body, IsCurveExpr axis ts body) taken rest := by
  obtain ⟨taken, rfl, ⟨more, hmore, hexpr⟩, hstop⟩ := wholeExpr_stuck hspelled h
  refine ⟨taken, rfl, ⟨more, hmore, taken ++ more, ⟨[], rfl, .inl rfl⟩, hexpr⟩, ?_⟩
  rintro rest' hrest' hhead ⟨body, ⟨header, heq, hcases⟩, hbody⟩
  have htaken := spelled_append hspelled hrest'
  rcases hcases with rfl | hheader
  · rw [List.nil_append] at heq
    exact not_isExpr_of_wholeExpr htaken (hstop rest' hhead) (heq ▸ hbody)
  · -- a header that ends with the next token was complete in the input already
    have hspelled' : ∀ tok ∈ header, tok.Spelled := by
      intro tok htok
      exact htaken tok (heq ▸ List.mem_append_left body htok)
    obtain ⟨sign, rfl, rfl⟩ :=
      isHeader_append_of_wholeExpr hheader hspelled' heq (hstop rest' hhead)
    obtain ⟨after, rfl⟩ := eq_cons_of_head? hhead.symm
    obtain ⟨name, hname, _⟩ := header?_of_isHeader hheader after
    rw [List.append_assoc, List.singleton_append, hbare] at hname
    cases hname

/-- Where the reader of curve expressions is stuck is the fault of the grammar. -/
theorem curveExpr_stuck {axis : Option String} {input rest : List Token} {reason : Reason}
    (hspelled : ∀ tok ∈ input, tok.Spelled) (h : curveExpr axis input = .error ⟨reason, rest⟩)
    (hnamed : ∀ header body, input = header ++ body → IsHeader none header →
      IsHeader axis header) :
    ∃ taken, input = taken ++ rest ∧
      FaultBehind (fun ts => ∃ body, IsCurveExpr axis ts body) taken rest := by
  cases hheader? : header? input with
  | some found =>
      obtain ⟨name, body⟩ := found
      have hnone : ∀ a ∈ (none : Option String), name.text = a := by simp
      obtain ⟨header, rfl, hheader⟩ := isHeader_of_header? hheader? hnone
      replace hheader := hnamed header body rfl hheader
      obtain ⟨name', hname, hnamed'⟩ := header?_of_isHeader hheader body
      rw [hheader?] at hname
      cases hname
      have hwhole : wholeExpr body = .error ⟨reason, rest⟩ := by
        unfold curveExpr at h
        rw [hheader?] at h
        cases axis with
        | none => exact h
        | some a =>
            simp only [if_pos (hnamed' a rfl)] at h
            exact h
      exact fault_of_header hheader (spelled_rest hspelled rfl) hwhole
  | none =>
      have hwhole : wholeExpr input = .error ⟨reason, rest⟩ := by
        unfold curveExpr at h
        rwa [hheader?] at h
      exact fault_of_bare hheader? hspelled hwhole

/-- Wherever the reader of curve expressions is stuck, it has taken what stands before. -/
theorem suffix_of_curveExpr {axis : Option String} {input : List Token} {stuck : Stuck}
    (hspelled : ∀ tok ∈ input, tok.Spelled) (h : curveExpr axis input = .error stuck) :
    stuck.rest <:+ input := by
  have hwhole : ∀ body : List Token, body <:+ input → wholeExpr body = .error stuck →
      stuck.rest <:+ input := by
    intro body hbody hstuck
    obtain ⟨taken, rfl, _⟩ :=
      wholeExpr_stuck (fun tok htok => hspelled tok (hbody.mem htok)) hstuck
    exact (List.suffix_append taken stuck.rest).trans hbody
  unfold curveExpr at h
  split at h
  · exact hwhole input (List.suffix_refl input) h
  · rename_i hheader
    obtain ⟨_, _, _, _, rfl⟩ := eq_of_header? hheader
    exact hwhole _ ⟨[_, _, _, _, _], rfl⟩ h
  · rename_i hheader
    obtain ⟨_, _, _, _, rfl⟩ := eq_of_header? hheader
    split at h
    · exact hwhole _ ⟨[_, _, _, _, _], rfl⟩ h
    · cases h
      exact List.suffix_refl _

end Reader

/-! Sources -/

theorem parseExpr_eq_error_iff {source : String} {s : Scanned} (h : scan source = .ok s)
    {axis : Option String} {e : CompileError} :
    parseExpr source axis = .error e ↔
      ∃ stuck, s.curveExpr axis = .error stuck ∧ .inSource source (stuck.fault s) = e := by
  rw [parseExpr, scanSource, h]
  exact Outcome.mapError_eq_error_iff

theorem IsCurveExpr.kind_ne_newline {axis : Option String} {ts body : List Token}
    (h : IsCurveExpr axis ts body) : ∀ tok ∈ ts, tok.kind ≠ .newline := by
  obtain ⟨⟨header, rfl, hcases⟩, hbody⟩ := h
  rw [List.forall_mem_append]
  refine ⟨?_, fun tok htok => (hbody.derives.kind_ne tok htok).2.1⟩
  rcases hcases with rfl | hheader
  · exact List.forall_mem_nil _
  · cases hheader with
    | mk ident _ lparen word _ rparen equals => simp [ident, lparen, word, rparen, equals]

theorem lexemes_withoutNewlines (ts : List Token) :
    (withoutNewlines ts).map Token.lexeme = (ts.map Token.lexeme).filter (·.1 ≠ .newline) := by
  rw [List.filter_map]
  rfl

/-- The source is accepted as a curve expression. -/
def IsCurveSource (axis : Option String) (source : String) : Prop :=
  ∃ e, parseExpr source axis = .ok e

/-- The grammar decides which curve expressions are accepted, and line feeds do not count. -/
theorem decidedBy_isCurveExpr (axis : Option String) :
    DecidedBy withoutNewlines (IsCurveSource axis)
      (fun ts => ∃ body, IsCurveExpr axis ts body) where
  accepted_iff h := parseExpr_isOk_iff h
  of_lexemes := by
    rintro ts us ⟨body, hbody⟩ hlexemes
    obtain ⟨body', hbody', _⟩ := hbody.of_lexemes hlexemes
    exact ⟨body', hbody'⟩
  count_eq := by
    rintro ts ⟨body, hbody⟩
    refine List.filter_eq_self.2 fun tok htok => ?_
    exact decide_eq_true (hbody.kind_ne_newline tok htok)
  count_sublist _ := List.filter_sublist
  count_lexemes hlexemes := by
    rw [lexemes_withoutNewlines, lexemes_withoutNewlines, hlexemes]
  count_eof _ _ := List.filter_append ..

/-- The error of a source that is rejected is reported at the first of its tokens, line feeds left
out, with which no accepted source goes on: some accepted source begins with the tokens before it,
and none does with it as well. At the end this says that the tokens are not accepted as they are. A
header that is complete has to name the axis, if one is given. -/
theorem parseExpr_error_at_first_fault {source : String} {s : Scanned} (h : scan source = .ok s)
    {axis : Option String} {e : CompileError} (he : parseExpr source axis = .error e)
    (hnamed : ∀ header body, withoutNewlines s.tokens = header ++ body → IsHeader none header →
      IsHeader axis header) :
    ∃ before tok, e.Blames withoutNewlines source s before tok ∧
      IsFirstFault withoutNewlines (IsCurveSource axis) before tok := by
  obtain ⟨⟨reason, rest⟩, hstuck, rfl⟩ := (parseExpr_eq_error_iff h).1 he
  obtain ⟨taken, hinput, hfault⟩ := Reader.curveExpr_stuck (spelled_withoutNewlines h) hstuck hnamed
  have hdecided := decidedBy_isCurveExpr axis
  refine ⟨taken, s.current rest, hdecided.blames h hinput, hdecided.isFirstFault s ?_ hfault⟩
  intro tok htok
  rw [← hinput] at htok
  exact isWritten_of_scan h tok ((hdecided.count_sublist s.tokens).mem htok)

theorem parseExpr_error_at_first_fault_operand :
    ∃ s e before tok, scan "x(t) = sin (2 +\n* t)" = .ok s ∧
      parseExpr "x(t) = sin (2 +\n* t)" (some "x") = .error e ∧
      e.Blames withoutNewlines "x(t) = sin (2 +\n* t)" s before tok ∧
      IsFirstFault withoutNewlines (IsCurveSource (some "x")) before
        tok := by
  have h : scan "x(t) = sin (2 +\n* t)" = .ok
      ⟨[⟨.ident, "x", ⟨0, 1, 1⟩⟩, ⟨.lparen, "(", ⟨1, 1, 2⟩⟩, ⟨.ident, "t", ⟨2, 1, 3⟩⟩,
        ⟨.rparen, ")", ⟨3, 1, 4⟩⟩, ⟨.equals, "=", ⟨5, 1, 6⟩⟩, ⟨.ident, "sin", ⟨7, 1, 8⟩⟩,
        ⟨.lparen, "(", ⟨11, 1, 12⟩⟩, ⟨.number, "2", ⟨12, 1, 13⟩⟩, ⟨.plus, "+", ⟨14, 1, 15⟩⟩,
        ⟨.newline, "\n", ⟨15, 1, 16⟩⟩, ⟨.star, "*", ⟨16, 2, 1⟩⟩, ⟨.ident, "t", ⟨18, 2, 3⟩⟩,
        ⟨.rparen, ")", ⟨19, 2, 4⟩⟩], ⟨20, 2, 5⟩⟩ := by
    decide +kernel
  have hrejected : (parseExpr "x(t) = sin (2 +\n* t)" (some "x")).isOk = false := by
    decide +kernel
  cases he : parseExpr "x(t) = sin (2 +\n* t)" (some "x") with
  | ok tree =>
      rw [he] at hrejected
      cases hrejected
  | error e =>
      obtain ⟨before, tok, hfault⟩ := parseExpr_error_at_first_fault h he (by
        intro header body heq hheader
        cases hheader with
        | mk ident _ lparen word isParameter rparen equals =>
            obtain ⟨rfl, _⟩ := List.cons.inj heq
            exact .mk ident (by simp) lparen word isParameter rparen equals)
      exact ⟨_, e, before, tok, h, rfl, hfault⟩

end FlightCurve

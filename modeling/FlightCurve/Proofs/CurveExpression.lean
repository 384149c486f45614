import FlightCurve.Compilation
import FlightCurve.Proofs.Places
import FlightCurve.Proofs.Scanning

/-!
What is accepted as a curve expression, and which tree is built for it. The main statement is that
parsing succeeds exactly on the sources whose tokens the grammar derives, with the only tree that
flattens to them, and that neither line feeds nor blanks change that tree but for its places.
-/

namespace FlightCurve

/-! Headers -/

namespace Reader

theorem header?_of_isHeader {axis : Option String} {header : List Token}
    (h : IsHeader axis header) (body : List Token) :
    ∃ name, header? (header ++ body) = some (name, body) ∧ ∀ a ∈ axis, name.text = a := by
  cases h with
  | @mk name left parameter right sign ident named lparen word isParameter rparen equals =>
      refine ⟨name, ?_, named⟩
      simp only [List.cons_append, List.nil_append, header?]
      exact if_pos ⟨ident, lparen, word, isParameter, rparen, equals⟩

theorem eq_of_header? {input body : List Token} {name : Token}
    (h : header? input = some (name, body)) :
    ∃ left parameter right sign, input = name :: left :: parameter :: right :: sign :: body := by
  unfold header? at h
  split at h
  · rename_i name' left parameter right sign body'
    split at h
    · cases h
      exact ⟨left, parameter, right, sign, rfl⟩
    · cases h
  · cases h

theorem isHeader_of_header? {input body : List Token} {name : Token}
    (h : header? input = some (name, body)) {axis : Option String}
    (hname : ∀ a ∈ axis, name.text = a) :
    ∃ header, input = header ++ body ∧ IsHeader axis header := by
  unfold header? at h
  split at h
  · rename_i name' left parameter right sign body'
    split at h
    · rename_i hheader
      cases h
      obtain ⟨ident, lparen, word, isParameter, rparen, equals⟩ := hheader
      exact ⟨[name, left, parameter, right, sign], rfl,
        .mk ident hname lparen word isParameter rparen equals⟩
    · cases h
  · cases h

/-! Expressions that take up all tokens -/

theorem wholeExpr_eq_run (input : List Token) :
    wholeExpr input = (do
      let value ← expr.run input
      match value.2 with
      | [] => .ok value.1
      | tok :: after => .error ⟨.afterExpression, tok :: after⟩) := by
  rw [wholeExpr, run]
  cases expr input with
  | error stuck => rfl
  | ok reading => rfl

theorem wholeExpr_eq_ok_iff {input : List Token} (hspelled : ∀ tok ∈ input, tok.Spelled)
    {e : Expr} : wholeExpr input = .ok e ↔ Fit e.flatten input ∧ e.nesting ≤ maxNesting := by
  have hrun : wholeExpr input = .ok e ↔ expr.run input = .ok (e, []) := by
    rw [wholeExpr_eq_run, Outcome.bind_eq_ok_iff]
    constructor
    · rintro ⟨⟨value, rest⟩, hvalue, h⟩
      cases rest with
      | nil =>
          cases h
          exact hvalue
      | cons tok rest => cases h
    · intro h
      exact ⟨(e, []), h, rfl⟩
  rw [hrun]
  constructor
  · intro h
    obtain ⟨taken, htaken, hfit, hnesting⟩ := expr_sound hspelled h
    rw [List.append_nil] at htaken
    exact ⟨htaken ▸ hfit, hnesting⟩
  · rintro ⟨hfit, hnesting⟩
    have h := expr_complete hfit hnesting (Rule.endsBefore_nil _)
    rwa [List.append_nil] at h

end Reader

/-! Curve expressions -/

/-- What follows a header is the whole expression, since no expression has an equals sign. -/
theorem IsCurveExpr.eq_body {axis axis' : Option String} {header ts body : List Token}
    (h : IsCurveExpr axis (header ++ ts) body) (hheader : IsHeader axis' header) :
    body = ts ∧ IsHeader axis header := by
  obtain ⟨⟨header', heq, hcases⟩, hbody⟩ := h
  cases hheader with
  | @mk name left parameter right sign _ _ _ _ _ _ equals =>
      rcases hcases with rfl | hheader'
      · rw [List.nil_append] at heq
        have hsign : sign ∈ body := by
          rw [← heq]
          simp
        exact absurd equals (hbody.derives.kind_ne sign hsign).1
      · cases hheader' with
        | mk ident named lparen word isParameter rparen equals' =>
            simp only [List.cons_append, List.nil_append, List.cons.injEq] at heq
            obtain ⟨rfl, rfl, rfl, rfl, rfl, rfl⟩ := heq
            exact ⟨rfl, .mk ident named lparen word isParameter rparen equals'⟩

theorem IsCurveExpr.of_header {axis : Option String} {header body : List Token}
    (hheader : IsHeader axis header) (hbody : IsExpr body) :
    IsCurveExpr axis (header ++ body) body :=
  ⟨⟨header, rfl, .inr hheader⟩, hbody⟩

/-- Tokens are a curve expression in one way at most. -/
theorem IsCurveExpr.unique {axis : Option String} {ts body body' : List Token}
    (h : IsCurveExpr axis ts body) (h' : IsCurveExpr axis ts body') : body' = body := by
  obtain ⟨header, rfl, rfl | hheader⟩ := h.header
  · obtain ⟨header', heq, rfl | hheader'⟩ := h'.header
    · exact heq.symm
    · rw [heq] at h
      exact (h.eq_body hheader').1.symm
  · exact (h'.eq_body hheader).1

/-- The reader of curve expressions accepts what the grammar derives, and nothing else. -/
theorem Reader.curveExpr_eq_ok_iff {axis : Option String} {input : List Token}
    (hspelled : ∀ tok ∈ input, tok.Spelled) {e : Expr} :
    curveExpr axis input = .ok e ↔ ∃ body, IsCurveExpr axis input body ∧ Fit e.flatten body := by
  cases hheader? : header? input with
  | none =>
      have hwhole : curveExpr axis input = wholeExpr input := by
        unfold curveExpr
        rw [hheader?]
      rw [hwhole, wholeExpr_eq_ok_iff hspelled]
      constructor
      · rintro ⟨hfit, hnesting⟩
        exact ⟨input, ⟨⟨[], rfl, .inl rfl⟩, isExpr_of_fit hfit hnesting⟩, hfit⟩
      · rintro ⟨body, ⟨⟨header, rfl, rfl | hheader⟩, hbody⟩, hfit⟩
        · exact ⟨hfit, hbody.nesting_le hfit⟩
        · obtain ⟨name, hname, _⟩ := header?_of_isHeader hheader body
          rw [hname] at hheader?
          cases hheader?
  | some found =>
      obtain ⟨name, ts⟩ := found
      have hnone : ∀ a ∈ (none : Option String), name.text = a := by simp
      obtain ⟨header, rfl, hheader⟩ := isHeader_of_header? hheader? hnone
      have hts : ∀ tok ∈ ts, tok.Spelled := spelled_rest hspelled rfl
      -- a header of another axis is no header of this one, and cannot begin an expression either
      by_cases hname : ∀ a ∈ axis, name.text = a
      · have hwhole : curveExpr axis (header ++ ts) = wholeExpr ts := by
          unfold curveExpr
          rw [hheader?]
          cases axis with
          | none => rfl
          | some a => exact if_pos (hname a rfl)
        obtain ⟨header', heq, hheader'⟩ := isHeader_of_header? hheader? hname
        rw [hwhole, wholeExpr_eq_ok_iff hts, heq]
        constructor
        · rintro ⟨hfit, hnesting⟩
          exact ⟨ts, .of_header hheader' (isExpr_of_fit hfit hnesting), hfit⟩
        · rintro ⟨body, hcurve, hfit⟩
          obtain ⟨rfl, _⟩ := hcurve.eq_body hheader'
          exact ⟨hfit, hcurve.body.nesting_le hfit⟩
      · constructor
        · intro h
          cases axis with
          | none => exact absurd (by simp) hname
          | some a =>
              have hne : name.text ≠ a := fun heq => hname (by simpa using heq)
              unfold curveExpr at h
              rw [hheader?] at h
              simp only [if_neg hne] at h
              cases h
        · rintro ⟨body, hcurve, _⟩
          obtain ⟨_, hheader'⟩ := hcurve.eq_body hheader
          obtain ⟨name', hname?, hnamed⟩ := header?_of_isHeader hheader' ts
          rw [hheader?] at hname?
          cases hname?
          exact absurd hnamed hname

/-! Sources -/

theorem spelled_withoutNewlines {source : String} {s : Scanned} (h : scan source = .ok s) :
    ∀ tok ∈ withoutNewlines s.tokens, tok.Spelled := by
  intro tok htok
  exact spelled_of_scan h tok (List.mem_filter.1 htok).1

theorem parseExpr_eq_ok_iff {source : String} {s : Scanned} (h : scan source = .ok s)
    {axis : Option String} {e : Expr} :
    parseExpr source axis = .ok e ↔
      ∃ body, IsCurveExpr axis (withoutNewlines s.tokens) body ∧ Fit e.flatten body := by
  have hparse : parseExpr source axis = .ok e ↔ s.curveExpr axis = .ok e := by
    rw [parseExpr, scanSource, h]
    exact Outcome.mapError_eq_ok_iff
  rw [hparse, Scanned.curveExpr, Reader.curveExpr_eq_ok_iff (spelled_withoutNewlines h)]

theorem parseExpr_isOk_iff {source : String} {s : Scanned} (h : scan source = .ok s)
    {axis : Option String} :
    (∃ e, parseExpr source axis = .ok e) ↔
      ∃ body, IsCurveExpr axis (withoutNewlines s.tokens) body := by
  constructor
  · rintro ⟨e, he⟩
    obtain ⟨body, hbody, _⟩ := (parseExpr_eq_ok_iff h).1 he
    exact ⟨body, hbody⟩
  · rintro ⟨body, hbody⟩
    obtain ⟨header, heq, _⟩ := hbody.header
    have hspelled : ∀ tok ∈ body, tok.Spelled :=
      Reader.spelled_rest (spelled_withoutNewlines h) heq
    obtain ⟨e, hfit, _⟩ := hbody.body.exists_tree hspelled
    exact ⟨e, (parseExpr_eq_ok_iff h).2 ⟨body, hbody, hfit⟩⟩

/-- Sources that say the same but for line feeds and blanks are accepted together, with trees that
are the same but for their places. -/
theorem parseExpr_of_lexemes {source source' : String} {s s' : Scanned}
    (h : scan source = .ok s) (h' : scan source' = .ok s') {axis : Option String}
    (hlexemes : (withoutNewlines s'.tokens).map Token.lexeme =
      (withoutNewlines s.tokens).map Token.lexeme)
    {e : Expr} (he : parseExpr source axis = .ok e) :
    ∃ e', parseExpr source' axis = .ok e' ∧ e'.unplaced = e.unplaced := by
  obtain ⟨body, hbody, hfit⟩ := (parseExpr_eq_ok_iff h).1 he
  obtain ⟨body', hbody', hsame⟩ := hbody.of_lexemes hlexemes
  obtain ⟨e', he'⟩ := (parseExpr_isOk_iff h').2 ⟨body', hbody'⟩
  obtain ⟨body'', hbody'', hfit'⟩ := (parseExpr_eq_ok_iff h').1 he'
  obtain rfl := hbody'.unique hbody''
  have hfit'' := Tree.fit_unplaced hfit'
  rw [map_unplaced_of_lexemes hsame] at hfit''
  exact ⟨e', he', Expr.eq_of_fit (Tree.fit_unplaced hfit) hfit''⟩

/-- A source is accepted as a curve expression exactly if the grammar derives its tokens, line feeds
left out, with parentheses nested at most `maxNesting` deep. The tree that is returned flattens to
the tokens of the expression, and is the only one that does. Where line feeds and blanks stand
changes nothing but places. -/
theorem parseExpr_accepts_grammar {source : String} {s : Scanned} (h : scan source = .ok s)
    (axis : Option String) :
    ((∃ e, parseExpr source axis = .ok e) ↔
      ∃ body, IsCurveExpr axis (withoutNewlines s.tokens) body) ∧
    (∀ e, parseExpr source axis = .ok e →
      ∃ body, IsCurveExpr axis (withoutNewlines s.tokens) body ∧ Fit e.flatten body ∧
        (∀ body', IsCurveExpr axis (withoutNewlines s.tokens) body' → body' = body) ∧
        ∀ e' : Expr, Fit e'.flatten body → e' = e) ∧
    ∀ source' s', scan source' = .ok s' →
      (withoutNewlines s'.tokens).map Token.lexeme = (withoutNewlines s.tokens).map Token.lexeme →
      (parseExpr source' axis).toOption.map Tree.unplaced =
        (parseExpr source axis).toOption.map Tree.unplaced := by
  refine ⟨parseExpr_isOk_iff h, ?_, ?_⟩
  · intro e he
    obtain ⟨body, hbody, hfit⟩ := (parseExpr_eq_ok_iff h).1 he
    exact ⟨body, hbody, hfit, fun _ => hbody.unique, fun _ => Expr.eq_of_fit hfit⟩
  · intro source' s' h' hlexemes
    cases he : parseExpr source axis with
    | ok e =>
        obtain ⟨e', he', hsame⟩ := parseExpr_of_lexemes h h' hlexemes he
        rw [he']
        exact congrArg some hsame
    | error fault =>
        cases he' : parseExpr source' axis with
        | error fault' => rfl
        | ok e' =>
            obtain ⟨_, hok, _⟩ := parseExpr_of_lexemes h' h hlexemes.symm he'
            rw [he] at hok
            cases hok

theorem parseExpr_accepts_grammar_call :
    ∃ s e, scan "x(t) = sin\n(t ^ t)" = .ok s ∧
      parseExpr "x(t) = sin\n(t ^ t)" (some "x") = .ok e := by
  have h : scan "x(t) = sin\n(t ^ t)" = .ok
      ⟨[⟨.ident, "x", ⟨0, 1, 1⟩⟩, ⟨.lparen, "(", ⟨1, 1, 2⟩⟩, ⟨.ident, "t", ⟨2, 1, 3⟩⟩,
        ⟨.rparen, ")", ⟨3, 1, 4⟩⟩, ⟨.equals, "=", ⟨5, 1, 6⟩⟩, ⟨.ident, "sin", ⟨7, 1, 8⟩⟩,
        ⟨.newline, "\n", ⟨10, 1, 11⟩⟩, ⟨.lparen, "(", ⟨11, 2, 1⟩⟩, ⟨.ident, "t", ⟨12, 2, 2⟩⟩,
        ⟨.caret, "^", ⟨14, 2, 4⟩⟩, ⟨.ident, "t", ⟨16, 2, 6⟩⟩, ⟨.rparen, ")", ⟨17, 2, 7⟩⟩],
        ⟨18, 2, 8⟩⟩ := by
    decide +kernel
  have hheader : IsHeader (some "x")
      [⟨.ident, "x", ⟨0, 1, 1⟩⟩, ⟨.lparen, "(", ⟨1, 1, 2⟩⟩, ⟨.ident, "t", ⟨2, 1, 3⟩⟩,
        ⟨.rparen, ")", ⟨3, 1, 4⟩⟩, ⟨.equals, "=", ⟨5, 1, 6⟩⟩] :=
    .mk rfl (by simp) rfl rfl rfl rfl rfl
  have hpower : Rule.Derives (.chain .power)
      ([⟨.ident, "t", ⟨12, 2, 2⟩⟩] ++ ⟨.caret, "^", ⟨14, 2, 4⟩⟩ :: [⟨.ident, "t", ⟨16, 2, 6⟩⟩]) :=
    .operator (.plain (.name rfl)) (by decide) (.operand (.plain (.name rfl)))
  have hcall : Rule.Derives .call (⟨.ident, "sin", ⟨7, 1, 8⟩⟩ :: ⟨.lparen, "(", ⟨11, 2, 1⟩⟩ ::
      ([⟨.ident, "t", ⟨12, 2, 2⟩⟩, ⟨.caret, "^", ⟨14, 2, 4⟩⟩, ⟨.ident, "t", ⟨16, 2, 6⟩⟩] ++
        [⟨.rparen, ")", ⟨17, 2, 7⟩⟩])) :=
    .callOne rfl (.group rfl (.operand (.operand (.unsigned hpower))) rfl)
  have hbody : IsExpr _ := ⟨.operand (.operand (.unsigned (.operand hcall))), by decide⟩
  obtain ⟨e, he⟩ :=
    (parseExpr_accepts_grammar h (some "x")).1.2 ⟨_, .of_header hheader hbody⟩
  exact ⟨_, e, h, he⟩

end FlightCurve

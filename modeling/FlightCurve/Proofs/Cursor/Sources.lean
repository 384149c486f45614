import FlightCurve.Proofs.CurveExpression
import FlightCurve.Proofs.Cursor.Expressions

/-!
Where clauses and curve expressions read by index. The main facts are that both ways of reading have
the same outcome on every source, so no index is out of range, no loop comes back to where it was,
and nothing is read forever.
-/

namespace FlightCurve

namespace Cursor

/-! Where clauses -/

/-- How a cursor is stuck where a reader is. -/
def Stop.ofStuck (s : Scanned) (stuck : Stuck) : Stop :=
  .stuck stuck.reason (s.current stuck.rest)

variable {s : Scanned} {c : Cursor} {tok : Token} {rest : List Token}

theorem Settled.mem {separating : Bool} (h : Settled s separating c (tok :: rest)) :
    tok ∈ s.tokens := by
  cases h with
  | atToken here counts after => exact List.mem_of_getElem? here

theorem expect_of_kind {kind : Kind} (h : Stands s true c (tok :: rest)) (hkind : tok.kind = kind)
    (hleft : kind ≠ .lparen) (hright : kind ≠ .rparen) :
    ∃ i, c.index < i ∧ expect s.withEof true kind c = .ok (tok, ⟨i, c.depth⟩) ∧
      Stands s true ⟨i, c.depth⟩ rest := by
  obtain ⟨i, hle, hcurrent, hsettled⟩ := current_of_stands h
  change current s.withEof true c = .ok (tok, ⟨i, c.depth⟩) at hcurrent
  refine ⟨i + 1, Nat.lt_succ_of_le hle, ?_, hsettled.next (hkind ▸ hleft) (hkind ▸ hright)⟩
  rw [expect_of_current hcurrent, if_pos hkind, advance_of_settled hsettled]

theorem expect_of_kind_ne {kind : Kind} (h : Stands s true c rest)
    (hkind : (s.current rest).kind ≠ kind) :
    expect s.withEof true kind c = .error (.stuck (.expected kind) (s.current rest)) := by
  obtain ⟨i, _, hcurrent, _⟩ := current_of_stands h
  rw [expect_of_current hcurrent, if_neg hkind]

theorem assignment_agrees : AgreesSettled s true 0 (assignment s.withEof) Reader.assignment := by
  intro start rest h hdepth
  cases rest with
  | nil =>
      rw [assignment, expect_of_kind_ne h (show (s.current []).kind ≠ .ident from nofun)]
      exact .stuck ⟨.expected .ident, []⟩
  | cons name after =>
      rw [assignment, Reader.run_assignment_cons]
      by_cases hname : name.kind = .ident
      · obtain ⟨i, hi, hexpect, hnext⟩ := expect_of_kind h hname (by decide) (by decide)
        rw [hexpect, if_neg (not_not.2 hname)]
        cases after with
        | nil =>
            have hsign := expect_of_kind_ne hnext (show (s.current []).kind ≠ .equals from nofun)
            simp only [bind, Except.bind, hsign]
            exact .stuck ⟨.expected .equals, []⟩
        | cons sign right =>
            simp only [bind, Except.bind]
            by_cases hsign : sign.kind = .equals
            · obtain ⟨j, hj, hexpect', hright⟩ := expect_of_kind hnext hsign (by decide) (by decide)
              rw [hexpect', if_neg (not_not.2 hsign)]
              have hij : i < j := hj
              refine (expr_agrees _ _ hright hdepth).bind ?_
              rintro value left last ⟨hbeyond, hsettled⟩
              exact .ok ⟨hbeyond.of_le rfl (show start.index ≤ j by omega), hsettled⟩
            · rw [expect_of_kind_ne hnext hsign, if_pos hsign]
              exact .stuck ⟨.expected .equals, sign :: right⟩
      · rw [expect_of_kind_ne h hname, if_pos hname]
        exact .stuck ⟨.expected .ident, name :: after⟩

theorem separators_of_other {tokens : List Token} {here : Cursor}
    (hcurrent : current tokens true c = .ok (tok, here)) (hsep : Reader.isSeparator tok = false) :
    separators tokens c = .ok here := by
  rw [separators, hcurrent]
  change (if Reader.isSeparator tok = true then _ else _) = _
  rw [hsep]
  rfl

theorem separators_of_separator {tokens : List Token} {here next : Cursor} {tok' : Token}
    (hcurrent : current tokens true c = .ok (tok, here)) (hsep : Reader.isSeparator tok = true)
    (hadvance : advance tokens true here = .ok (tok', next)) (hmoved : c.index < next.index)
    (hbound : c.index < tokens.length) : separators tokens c = separators tokens next := by
  rw [separators, hcurrent]
  refine (if_pos hsep).trans ?_
  rw [hadvance]
  exact dif_pos ⟨hmoved, hbound⟩

theorem Settled.lt_length {separating : Bool} (h : Settled s separating c rest) :
    c.index < s.withEof.length := by
  rw [length_withEof]
  exact Nat.lt_succ_of_le h.index_le

/-- Separators are passed over one by one, up to the first token that is none. -/
theorem separators_of_stands (h : Stands s true c rest) :
    ∃ i, c.index ≤ i ∧ separators s.withEof c = .ok ⟨i, c.depth⟩ ∧
      Settled s true ⟨i, c.depth⟩ (rest.dropWhile Reader.isSeparator) := by
  induction hn : s.withEof.length - c.index using Nat.strongRecOn generalizing c rest with
  | _ n ih =>
      obtain ⟨i, hle, hcurrent, hsettled⟩ := current_of_stands h
      have hbound : i < s.withEof.length := hsettled.lt_length
      cases rest with
      | nil => exact ⟨i, hle, separators_of_other hcurrent rfl, hsettled⟩
      | cons tok after =>
          change current s.withEof true c = .ok (tok, ⟨i, c.depth⟩) at hcurrent
          cases hsep : Reader.isSeparator tok with
          | false =>
              rw [List.dropWhile_cons_of_neg (by simp [hsep])]
              exact ⟨i, hle, separators_of_other hcurrent hsep, hsettled⟩
          | true =>
              have hkind : tok.kind ≠ .lparen ∧ tok.kind ≠ .rparen := by
                rcases Reader.isSeparator_iff.1 hsep with h | h <;> simp [h]
              have hnext := hsettled.next hkind.1 hkind.2
              have hmoved : c.index < i + 1 := Nat.lt_succ_of_le hle
              obtain ⟨j, hj, hseparators, hsettled'⟩ :=
                ih (s.withEof.length - (i + 1)) (by omega) hnext rfl
              have hij : i + 1 ≤ j := hj
              refine ⟨j, by omega, ?_, ?_⟩
              · rw [separators_of_separator hcurrent hsep (advance_of_settled hsettled) hmoved
                  (by omega)]
                exact hseparators
              · rw [List.dropWhile_cons_of_pos hsep]
                exact hsettled'

theorem assignments_of_eof {tokens : List Token} {here : Cursor}
    (hcurrent : current tokens true c = .ok (tok, here)) (heof : tok.kind = .eof) :
    assignments tokens c = .ok [] := by
  rw [assignments, hcurrent]
  exact if_pos heof

theorem assignments_of_other {tokens : List Token} {here : Cursor}
    (hcurrent : current tokens true c = .ok (tok, here)) (heof : tok.kind ≠ .eof) :
    assignments tokens c = (do
      let (first, after) ← assignment tokens here
      let (tok, after) ← current tokens true after
      if tok.kind = .eof then .ok [first]
      else if Reader.isSeparator tok then do
        let next ← separators tokens after
        if c.index < next.index ∧ c.index < tokens.length then do
          let others ← assignments tokens next
          .ok (first :: others)
        else .error .stalled
      else .error (.stuck .afterAssignment tok)) := by
  rw [assignments, hcurrent]
  refine (if_neg heof).trans ?_
  rfl

/-- Behind the separators before the first assignment, both ways of reading assignments agree. -/
theorem assignments_eq (heof : ∀ tok ∈ s.tokens, tok.kind ≠ .eof) (hdepth : c.depth = 0)
    (h : Settled s true c (rest.dropWhile Reader.isSeparator)) :
    assignments s.withEof c = (Reader.assignments rest).mapError (.ofStuck s) := by
  induction hn : s.withEof.length - c.index using Nat.strongRecOn generalizing c rest with
  | _ n ih =>
      have hcurrent := current_of_settled h
      cases hdrop : rest.dropWhile Reader.isSeparator with
      | nil =>
          rw [hdrop] at hcurrent
          rw [Reader.assignments_of_separators hdrop, assignments_of_eof hcurrent rfl]
          rfl
      | cons tok more =>
          rw [hdrop] at hcurrent h
          change current s.withEof true c = .ok (tok, c) at hcurrent
          rw [Reader.assignments_of_assignment hdrop,
            assignments_of_other hcurrent (heof tok h.mem)]
          -- what an assignment leaves decides both ways of reading alike: the end, a separator,
          -- or a token that they are stuck at
          have hfirst := assignment_agrees _ _ h.stands hdepth
          generalize Reader.assignment.run (tok :: more) = read at hfirst
          generalize assignment s.withEof c = reading at hfirst
          cases hfirst with
          | stuck stuck => rfl
          | @ok first left last hlast =>
              obtain ⟨hbeyond, hsettled⟩ := hlast
              have hmoved : c.index < last.index := hbeyond.index
              change (do
                let (tok, after) ← current s.withEof true last
                _) = _
              rw [current_of_settled hsettled]
              cases left with
              | nil => rfl
              | cons sep after =>
                  refine (if_neg (heof sep hsettled.mem)).trans ?_
                  by_cases hsep : Reader.isSeparator sep = true
                  · refine (if_pos hsep).trans ?_
                    obtain ⟨i, hle, hseparators, hnext⟩ := separators_of_stands hsettled.stands
                    rw [hseparators]
                    refine (if_pos ⟨show c.index < i by omega, h.lt_length⟩).trans ?_
                    have hbound := h.lt_length
                    rw [ih (s.withEof.length - i) (by omega) (c := ⟨i, last.depth⟩)
                      (hbeyond.depth.trans hdepth) hnext rfl]
                    change _ = Except.mapError _ (if Reader.isSeparator sep = true then _ else _)
                    rw [if_pos hsep, Outcome.mapError_bind]
                    rfl
                  · refine (if_neg hsep).trans ?_
                    change _ = Except.mapError _ (if Reader.isSeparator sep = true then _ else _)
                    rw [if_neg hsep]
                    rfl

theorem dropWhere_of_other {tokens : List Token} {here : Cursor}
    (hcurrent : current tokens true c = .ok (tok, here))
    (hwhere : ¬(tok.kind = .ident ∧ tok.text = whereKeyword)) :
    dropWhere tokens c = .ok here := by
  rw [dropWhere, hcurrent]
  exact if_neg hwhere

theorem dropWhere_of_where {tokens : List Token} {here next : Cursor} {seen tok' : Token}
    (hcurrent : current tokens true c = .ok (tok, here))
    (hwhere : tok.kind = .ident ∧ tok.text = whereKeyword)
    (hpeek : peek tokens true 1 here = .ok (seen, here))
    (hadvance : advance tokens true here = .ok (tok', next)) :
    dropWhere tokens c = .ok (if seen.kind = .equals then here else next) := by
  rw [dropWhere, hcurrent]
  refine (if_pos hwhere).trans ?_
  rw [hpeek]
  change (if seen.kind = .equals then _ else _) = _
  rw [hadvance]
  split <;> rfl

/-- The token that is seen beyond line feeds is an equals sign for both ways of reading. -/
theorem kind_of_seen (after : List Token) :
    ((withoutNewlines after)[0]?.getD (Token.eof s.finish)).kind = Kind.equals ↔
      (after.find? (·.kind ≠ .newline)).map (·.kind) = some Kind.equals := by
  rw [← List.head?_eq_getElem?, withoutNewlines, List.head?_filter]
  cases after.find? (·.kind ≠ .newline) with
  | none => simp [Token.eof]
  | some seen => simp

/-- The keyword is passed over exactly where it is dropped. -/
theorem dropWhere_of_stands (h : Stands s true c rest) :
    ∃ i, dropWhere s.withEof c = .ok ⟨i, c.depth⟩ ∧
      Stands s true ⟨i, c.depth⟩ (Reader.dropWhere rest) := by
  obtain ⟨i, hle, hcurrent, hsettled⟩ := current_of_stands h
  cases rest with
  | nil =>
      refine ⟨i, dropWhere_of_other hcurrent ?_, hsettled.stands⟩
      rintro ⟨hkind, _⟩
      cases hkind
  | cons tok after =>
      change current s.withEof true c = .ok (tok, ⟨i, c.depth⟩) at hcurrent
      rw [Reader.dropWhere]
      by_cases hwhere : tok.kind = .ident ∧ tok.text = whereKeyword
      · have hdrop := dropWhere_of_where hcurrent hwhere (peek_succ_of_settled hsettled 0)
          (advance_of_settled hsettled)
        -- an equals sign after the word, on whatever line, makes it a name
        by_cases hequals : (after.find? (·.kind ≠ .newline)).map (·.kind) = some Kind.equals
        · rw [if_pos ((kind_of_seen after).2 hequals)] at hdrop
          rw [if_neg fun hkeyword => hkeyword.2.2 hequals]
          exact ⟨i, hdrop, hsettled.stands⟩
        · rw [if_neg fun hkind => hequals ((kind_of_seen after).1 hkind)] at hdrop
          rw [if_pos ⟨hwhere.1, hwhere.2, hequals⟩]
          have hkind := hwhere.1
          exact ⟨i + 1, hdrop, hsettled.next (by simp [hkind]) (by simp [hkind])⟩
      · rw [if_neg fun hkeyword => hwhere ⟨hkeyword.1, hkeyword.2.1⟩]
        exact ⟨i, dropWhere_of_other hcurrent hwhere, hsettled.stands⟩

theorem stands_start {separating : Bool} :
    Stands s separating ⟨0, 0⟩ (remaining separating 0 s.tokens) :=
  ⟨Nat.zero_le _, rfl⟩

/-- Where clauses are read alike by index and off the list of the tokens that count. -/
theorem clause_eq (heof : ∀ tok ∈ s.tokens, tok.kind ≠ .eof) :
    clause s.withEof = s.assignments.mapError (.ofStuck s) := by
  obtain ⟨i, hwhere, hstands⟩ := dropWhere_of_stands (stands_start (s := s))
  obtain ⟨j, _, hseparators, hsettled⟩ := separators_of_stands hstands
  rw [clause, hwhere]
  change (separators s.withEof ⟨i, 0⟩ >>= _) = _
  rw [hseparators]
  exact assignments_eq heof rfl hsettled

/-! Curve expressions -/

theorem Stands.of_depth {d : Nat} (h : Stands s false c rest) :
    Stands s false ⟨c.index, d⟩ rest :=
  ⟨h.bound, h.rest⟩

/-- Where no line feed counts, looking ahead finds the tokens that do. -/
theorem peek_of_settled (h : Settled s false c rest) (n : Nat) :
    peek s.withEof false n c = .ok (rest[n]?.getD (.eof s.finish), c) := by
  cases n with
  | zero =>
      rw [peek, current_of_settled h]
      cases h with
      | atEnd last =>
          have hend : s.withEof[c.index]? = some (.eof s.finish) := last ▸ withEof_getElem?_length
          change (ahead s.withEof c.index 0 >>= _) = _
          rw [ahead_zero hend]
          rfl
      | atToken here counts after =>
          change (ahead s.withEof c.index 0 >>= _) = _
          rw [ahead_zero (withEof_getElem? here)]
          rfl
  | succ n =>
      have hpeek : peek s.withEof false (n + 1) c =
          .ok ((withoutNewlines (s.tokens.drop (c.index + 1)))[n]?.getD (.eof s.finish), c) := by
        rw [peek, current_of_settled h]
        change (ahead s.withEof c.index (n + 1) >>= _) = _
        rw [ahead_succ h.index_le]
        rfl
      rw [hpeek]
      cases h with
      | atEnd last =>
          rw [last, List.drop_of_length_le (Nat.le_succ _)]
          rfl
      | atToken here counts after =>
          rw [← after.rest]
          rfl

/-- Five tokens ahead a header is seen exactly where there is one. -/
theorem atHeader_of_stands (h : Stands s false c rest) :
    ∃ i, atHeader s.withEof c = .ok ((Reader.header? rest).isSome, ⟨i, c.depth⟩) ∧
      Stands s false ⟨i, c.depth⟩ rest := by
  obtain ⟨i, _, hcurrent, hsettled⟩ := current_of_stands h
  have hfirst : peek s.withEof false 0 c =
      .ok (rest[0]?.getD (.eof s.finish), ⟨i, c.depth⟩) := by
    have hpeek := peek_of_settled hsettled 0
    rw [peek, current_of_settled hsettled] at hpeek
    rw [peek, hcurrent]
    exact hpeek
  refine ⟨i, ?_, hsettled.stands⟩
  rw [atHeader, hfirst]
  simp only [bind, Except.bind, peek_of_settled hsettled]
  refine congrArg (fun found => Except.ok (found, Cursor.mk i c.depth)) ?_
  -- with fewer than five tokens the end is among those that are seen, and it is no equals sign
  rcases rest with
    _ | ⟨name, _ | ⟨left, _ | ⟨parameter, _ | ⟨right, _ | ⟨sign, body⟩⟩⟩⟩⟩
  · rfl
  · simp [Reader.header?, Token.eof]
  · simp [Reader.header?, Token.eof]
  · simp [Reader.header?, Token.eof]
  · simp [Reader.header?, Token.eof]
  · rw [Reader.header?]
    split
    · rename_i hheader
      simp [hheader]
    · rename_i hheader
      simpa [and_assoc] using hheader

theorem advance_any (h : Stands s false c (tok :: rest)) :
    ∃ i, advance s.withEof false c = .ok (tok, ⟨i, c.depth⟩) ∧
      Stands s false ⟨i, c.depth⟩ rest := by
  obtain ⟨i, _, hadvance, hstands⟩ := advance_of_stands h
  exact ⟨i, hadvance, hstands.of_depth⟩

theorem advanceBy_of_stands {taken : List Token} (h : Stands s false c (taken ++ rest)) :
    ∃ i, advanceBy s.withEof taken.length c = .ok ⟨i, c.depth⟩ ∧
      Stands s false ⟨i, c.depth⟩ rest := by
  induction taken generalizing c with
  | nil => exact ⟨c.index, rfl, h⟩
  | cons tok taken ih =>
      obtain ⟨i, hadvance, hstands⟩ := advance_any h
      obtain ⟨j, hmore, hrest⟩ := ih hstands
      refine ⟨j, ?_, hrest⟩
      rw [List.length_cons, advanceBy, hadvance]
      exact hmore

theorem wholeExpr_eq (heof : ∀ tok ∈ s.tokens, tok.kind ≠ .eof) (hdepth : c.depth = 0)
    (h : Stands s false c rest) :
    wholeExpr s.withEof c = (Reader.wholeExpr rest).mapError (.ofStuck s) := by
  rw [wholeExpr, Reader.wholeExpr_eq_run]
  have hexpr := expr_agrees _ _ h hdepth
  generalize Reader.expr.run rest = read at hexpr
  generalize expr s.withEof false c = reading at hexpr
  cases hexpr with
  | stuck stuck => rfl
  | @ok value left last hlast =>
      obtain ⟨_, hsettled⟩ := hlast
      change (current s.withEof false last >>= _) = _
      rw [current_of_settled hsettled]
      cases left with
      | nil => rfl
      | cons tok after => exact if_neg (heof tok hsettled.mem)

/-- Curve expressions are read alike by index and off the list of the tokens that count. -/
theorem curveExpr_eq (heof : ∀ tok ∈ s.tokens, tok.kind ≠ .eof) (axis : Option String) :
    curveExpr s.withEof axis = (s.curveExpr axis).mapError (.ofStuck s) := by
  obtain ⟨i, hat, hstands⟩ := atHeader_of_stands (stands_start (s := s))
  change Stands s false ⟨i, 0⟩ (withoutNewlines s.tokens) at hstands
  rw [curveExpr, hat, Scanned.curveExpr]
  unfold Reader.curveExpr
  change (if (Reader.header? (withoutNewlines s.tokens)).isSome then _ else _) = _
  cases hheader : Reader.header? (withoutNewlines s.tokens) with
  | none => exact wholeExpr_eq heof rfl hstands
  | some found =>
      obtain ⟨name, body⟩ := found
      obtain ⟨left, parameter, right, sign, hinput⟩ := Reader.eq_of_header? hheader
      rw [hinput] at hstands
      obtain ⟨j, hname, hrest⟩ := advance_any hstands
      have hparts : Stands s false ⟨j, 0⟩ ([left, parameter, right, sign] ++ body) := hrest
      obtain ⟨k, hmore, hbody⟩ := advanceBy_of_stands hparts
      have hwhole := wholeExpr_eq heof rfl hbody
      change (header s.withEof axis ⟨i, 0⟩ >>= _) = _
      rw [header, hname]
      cases axis with
      | none =>
          change (advanceBy s.withEof 4 ⟨j, 0⟩ >>= _) = _
          rw [show advanceBy s.withEof 4 ⟨j, 0⟩ = _ from hmore]
          exact hwhole
      | some axis =>
          change ((if name.text = axis then _ else _) >>= _) =
            Except.mapError _ (if name.text = axis then _ else _)
          by_cases haxis : name.text = axis
          · rw [if_pos haxis, if_pos haxis, show advanceBy s.withEof 4 ⟨j, 0⟩ = _ from hmore]
            exact hwhole
          · rw [if_neg haxis, if_neg haxis, hinput]
            rfl

end Cursor

end FlightCurve

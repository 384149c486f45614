import FlightCurve.Proofs.Clause
import FlightCurve.Proofs.FirstFault
import FlightCurve.Proofs.Resuming
import FlightCurve.Proofs.Stopping

/-!
The first fault of a where clause. The reader of assignments takes tokens for as long as they can be
continued, so it is stuck at the first fault.

The word that may stand before the assignments is an exception. It is taken for a target if the
first token after it that is no line feed is an equals sign, and then the reader is stuck at the line
feed, though the clause could go on there. The main statement says that the error of a clause that
is rejected is reported at its first fault but for this case, and where the first fault is in this
case.
-/

namespace FlightCurve

/-! Line feeds that count -/

theorem significant_append (n : Nat) (ts us : List Token) :
    significant n (ts ++ us) = significant n ts ++ significant (openAfter n ts) us := by
  induction ts generalizing n with
  | nil => rfl
  | cons tok ts ih =>
      rw [List.cons_append, significant_cons, significant_cons]
      change _ = _ ++ significant (openAfter (tok.openAfter n) ts) us
      split
      · rename_i hblank
        have hsame : tok.openAfter n = n := by rw [Token.openAfter, hblank.1]
        rw [ih, hsame]
      · rw [ih, List.cons_append]

theorem significant_of_ne_newline {ts : List Token} (h : ∀ tok ∈ ts, tok.kind ≠ .newline)
    (n : Nat) : significant n ts = ts := by
  induction ts generalizing n with
  | nil => rfl
  | cons tok ts ih =>
      rw [List.forall_mem_cons] at h
      rw [significant_cons, if_neg fun hblank => h.1 hblank.1, ih h.2]

theorem significant_of_separates {seps : List Token} (h : ∀ tok ∈ seps, tok.Separates) :
    significant 0 seps = seps ∧ openAfter 0 seps = 0 := by
  induction seps with
  | nil => exact ⟨rfl, rfl⟩
  | cons sep seps ih =>
      rw [List.forall_mem_cons] at h
      obtain ⟨hsame, hopen⟩ := ih h.2
      have hsep : sep.openAfter 0 = 0 := by
        rcases h.1 with h | h <;> rw [Token.openAfter, h]
      rw [significant_cons, if_neg fun hblank => Nat.lt_irrefl 0 hblank.2, hsep, hsame]
      refine ⟨rfl, ?_⟩
      change openAfter (sep.openAfter 0) seps = 0
      rw [hsep, hopen]

theorem significant_lexemes {ts us : List Token} (n : Nat)
    (h : us.map Token.lexeme = ts.map Token.lexeme) :
    (significant n us).map Token.lexeme = (significant n ts).map Token.lexeme := by
  induction ts generalizing us n with
  | nil =>
      obtain rfl := List.map_eq_nil_iff.1 h
      rfl
  | cons tok ts ih =>
      obtain ⟨tok', us, rfl, htok, hus⟩ := List.map_eq_cons_iff.1 h
      have hkind : tok'.kind = tok.kind := congrArg Prod.fst htok
      rw [significant_cons, significant_cons, Token.openAfter, Token.openAfter, hkind]
      split
      · exact ih n hus
      · rw [List.map_cons, List.map_cons, htok, ih _ hus]

namespace AssignmentTokens.Valid

variable {a : AssignmentTokens}

theorem significant_all (h : a.Valid) : significant 0 a.all = a.all := by
  refine significant_of_ne_newline ?_ 0
  rw [AssignmentTokens.all, List.forall_mem_cons, List.forall_mem_cons]
  refine ⟨by simp [h.ident], by simp [h.equals], fun tok htok => ?_⟩
  exact (h.value.derives.kind_ne tok htok).2.1

theorem openAfter_all (h : a.Valid) : openAfter 0 a.all = 0 := by
  obtain ⟨k, hk⟩ := h.value.derives.exists_nestsTo
  have htarget : a.target.openAfter 0 = 0 := by rw [Token.openAfter, h.ident]
  have hsign : a.sign.openAfter 0 = 0 := by rw [Token.openAfter, h.equals]
  change openAfter (a.sign.openAfter (a.target.openAfter 0)) a.value = 0
  rw [htarget, hsign]
  exact (hk 0).1

theorem of_kinds (h : a.Valid) {ts : List Token} (hkinds : ts.map Token.kind = a.all.map Token.kind) :
    ∃ a' : AssignmentTokens, a'.all = ts ∧ a'.Valid := by
  obtain ⟨target, ts, rfl, htarget, hts⟩ := List.map_eq_cons_iff.1 hkinds
  obtain ⟨sign, value, rfl, hsign, hvalue⟩ := List.map_eq_cons_iff.1 hts
  exact ⟨⟨target, sign, value⟩, rfl, htarget.trans h.ident, hsign.trans h.equals,
    h.value.of_kinds hvalue⟩

end AssignmentTokens.Valid

theorem separates_of_kinds {ts us : List Token} (h : ∀ tok ∈ ts, tok.Separates)
    (hkinds : us.map Token.kind = ts.map Token.kind) : ∀ tok ∈ us, tok.Separates := by
  intro tok htok
  obtain ⟨tok', htok', hkind⟩ := List.mem_map.1 (hkinds ▸ List.mem_map_of_mem htok)
  have hseparates := h tok' htok'
  rwa [Token.Separates, hkind] at hseparates

namespace SeparatedAssignments

variable {as : List AssignmentTokens} {ts : List Token}

theorem more_of_head (h : SeparatedAssignments as ts) (hhead : ∀ tok ∈ ts.head?, tok.Separates) :
    MoreAssignments as ts := by
  cases ts with
  | cons tok ts => exact h.more (hhead tok rfl)
  | nil =>
      generalize hinput : ([] : List Token) = input at h
      cases h with
      | empty separates => exact .done separates
      | @first seps us a _ _ _ _ =>
          have hlength := congrArg List.length hinput
          simp [AssignmentTokens.all] at hlength

/-- All line feeds of separated assignments count: none stands inside parentheses. -/
theorem significant_eq (h : SeparatedAssignments as ts) : significant 0 ts = ts := by
  induction as generalizing ts with
  | nil =>
      cases h with
      | empty separates => exact (significant_of_separates separates).1
  | cons a as ih =>
      cases h with
      | @first seps us _ _ separates valid rest =>
          obtain ⟨hseps, hopen⟩ := significant_of_separates separates
          rw [significant_append, hseps, hopen, significant_append, valid.significant_all,
            valid.openAfter_all, ih rest.separated]

theorem of_kinds (h : SeparatedAssignments as ts) {us : List Token}
    (hkinds : us.map Token.kind = ts.map Token.kind) : ∃ as', SeparatedAssignments as' us := by
  induction as generalizing ts us with
  | nil =>
      cases h with
      | empty separates => exact ⟨[], .empty (separates_of_kinds separates hkinds)⟩
  | cons a as ih =>
      cases h with
      | @first seps rest _ _ separates valid more =>
          rw [List.map_append, List.map_append] at hkinds
          obtain ⟨seps', us, rfl, hseps, hus⟩ := List.map_eq_append_iff.1 hkinds
          obtain ⟨all, rest', rfl, hall, hrest⟩ := List.map_eq_append_iff.1 hus
          obtain ⟨a', rfl, hvalid⟩ := valid.of_kinds hall
          obtain ⟨as', has'⟩ := ih more.separated hrest
          refine ⟨a' :: as', .first (separates_of_kinds separates hseps) hvalid
            (has'.more_of_head ?_)⟩
          intro tok htok
          -- what follows the assignment begins with a separator as before
          cases rest' with
          | nil => cases htok
          | cons tok' rest' =>
              cases htok
              obtain ⟨tok'', rest'', rfl, hkind, _⟩ := List.map_eq_cons_iff.1 hrest.symm
              have hseparates := more.head_separates tok'' rfl
              rwa [Token.Separates, hkind] at hseparates

end SeparatedAssignments

theorem IsClause.significant_eq {as : List AssignmentTokens} {ts : List Token}
    (h : IsClause as ts) : significant 0 ts = ts := by
  cases h with
  | bare assignments => exact assignments.significant_eq
  | @keyword ts _ tok ident _ assignments =>
      have hopen : tok.openAfter 0 = 0 := by rw [Token.openAfter, ident]
      rw [significant_cons, if_neg fun hblank => Nat.lt_irrefl 0 hblank.2, hopen,
        assignments.significant_eq]

theorem IsClause.of_lexemes {as : List AssignmentTokens} {ts us : List Token} (h : IsClause as ts)
    (hlexemes : us.map Token.lexeme = ts.map Token.lexeme) : ∃ as', IsClause as' us := by
  cases h with
  | bare assignments =>
      obtain ⟨as', has'⟩ := assignments.of_kinds (map_kind_of_lexemes hlexemes)
      exact ⟨as', .bare has'⟩
  | keyword ident keyword assignments =>
      obtain ⟨tok, us, rfl, htok, hus⟩ := List.map_eq_cons_iff.1 hlexemes
      obtain ⟨as', has'⟩ := assignments.of_kinds (map_kind_of_lexemes hus)
      rw [Token.lexeme, Token.lexeme, Prod.mk.injEq] at htok
      exact ⟨as', .keyword (htok.1.trans ident) (htok.2.trans keyword) has'⟩

/-- The source is accepted as a where clause. -/
def IsClauseSource (source : String) : Prop := ∃ as, parseAssignments source = .ok as

/-- The grammar decides which where clauses are accepted, and line feeds inside parentheses do not
count. -/
theorem decidedBy_isClause :
    DecidedBy clauseTokens IsClauseSource (fun ts => ∃ all, IsClause all ts) where
  accepted_iff h := parseAssignments_isOk_iff h
  of_lexemes := by
    rintro ts us ⟨all, hall⟩ hlexemes
    exact hall.of_lexemes hlexemes
  count_eq := by
    rintro ts ⟨all, hall⟩
    rw [← significant_eq_clauseTokens, hall.significant_eq]
  count_sublist := clauseTokens_sublist
  count_lexemes hlexemes := by
    rw [← significant_eq_clauseTokens, ← significant_eq_clauseTokens]
    exact significant_lexemes 0 hlexemes
  count_eof ts p := by
    rw [← significant_eq_clauseTokens, ← significant_eq_clauseTokens, significant_append]
    exact congrArg _ (significant_of_ne_newline (by simp [Token.eof]) _)

namespace Reader

/-! One assignment -/

theorem assignment_steady (input : List Token) : Steady assignment.run input := by
  cases input with
  | nil =>
      refine (steady_error (.expected .ident) []).congr_head fun input' hhead => ?_
      rw [eq_nil_of_head? hhead]
      rfl
  | cons name after =>
      by_cases hname : name.kind = .ident
      · cases after with
        | nil =>
            refine ⟨[name], [], .error (.expected .equals), rfl, fun rest' hhead => ?_⟩
            rw [eq_nil_of_head? hhead, List.append_nil, run_assignment_cons,
              if_neg (not_not.2 hname)]
            rfl
        | cons sign right =>
            by_cases hsign : sign.kind = .equals
            · have hvalue : Steady (fun right => do
                  let value ← expr.run right
                  .ok ((⟨name.placed, value.1⟩ : Assignment), value.2)) right :=
                (expr_steady right).bind fun value rest _ =>
                  steady_ok (⟨name.placed, value⟩ : Assignment) rest
              obtain ⟨taken, rest, outcome, rfl, hstop⟩ := hvalue
              refine ⟨name :: sign :: taken, rest, outcome, rfl, fun rest' hhead => ?_⟩
              exact (run_assignment hname hsign _).trans (hstop rest' hhead)
            · refine ⟨[name], sign :: right, .error (.expected .equals), rfl, fun rest' hhead => ?_⟩
              obtain ⟨right', rfl⟩ := eq_cons_of_head? hhead
              rw [List.singleton_append, run_assignment_cons, if_neg (not_not.2 hname)]
              exact if_pos hsign
      · refine (steady_error (.expected .ident) (name :: after)).congr_head fun input' hhead => ?_
        obtain ⟨after', rfl⟩ := eq_cons_of_head? hhead
        rw [run_assignment_cons, if_pos hname]

/-- A name, which is what an assignment begins with. -/
def someName : Token := ⟨.ident, "a", .start⟩

def equalsSign : Token := ⟨.equals, "=", .start⟩

theorem isExpr_zero : IsExpr [zero] := by
  obtain ⟨tree, hfit, hnesting⟩ := exists_tree_zero (.chain .sum)
  exact isExpr_of_fit hfit (hnesting ▸ Nat.zero_le maxNesting)

/-- Where the reader of an assignment is stuck, an assignment goes on behind the tokens taken. -/
theorem assignment_resumes {input rest : List Token} {reason : Reason}
    (hspelled : ∀ tok ∈ input, tok.Spelled) (h : assignment.run input = .error ⟨reason, rest⟩) :
    ∃ taken more, ∃ a : AssignmentTokens, input = taken ++ rest ∧ a.all = taken ++ more ∧ a.Valid ∧
      ∀ tok ∈ more, tok.IsWritten := by
  have hnothing : ∃ taken more, ∃ a : AssignmentTokens, rest = taken ++ rest ∧
      a.all = taken ++ more ∧ a.Valid ∧ ∀ tok ∈ more, tok.IsWritten :=
    ⟨[], [someName, equalsSign, zero], ⟨someName, equalsSign, [zero]⟩, rfl, rfl,
      ⟨rfl, rfl, isExpr_zero⟩, by decide⟩
  cases input with
  | nil =>
      cases h
      exact hnothing
  | cons name after =>
      rw [run_assignment_cons] at h
      split at h
      · cases h
        exact hnothing
      · rename_i hname
        have hvalid : (⟨name, equalsSign, [zero]⟩ : AssignmentTokens).Valid :=
          ⟨not_not.1 hname, rfl, isExpr_zero⟩
        have hmore : ∀ tok ∈ [equalsSign, zero], tok.IsWritten := by decide
        split at h
        · cases h
          exact ⟨[name], [equalsSign, zero], _, rfl, rfl, hvalid, hmore⟩
        · rename_i sign right
          split at h
          · cases h
            exact ⟨[name], [equalsSign, zero], _, rfl, rfl, hvalid, hmore⟩
          · rename_i hsign
            rw [List.forall_mem_cons, List.forall_mem_cons] at hspelled
            rcases Outcome.bind_eq_error_iff.1 h with hvalue | ⟨value, _, hvalue⟩
            · obtain ⟨tree, ⟨taken, more, rfl, hfit, hmore⟩, hnesting⟩ :=
                expr_resumes hspelled.2.2 hvalue
              exact ⟨name :: sign :: taken, more, ⟨name, sign, taken ++ more⟩, rfl, rfl,
                ⟨not_not.1 hname, not_not.1 hsign, isExpr_of_fit hfit hnesting⟩, hmore⟩
            · cases hvalue

/-! Separated assignments -/

/-- What is read after an assignment. -/
def othersAfter (first : Assignment × List Token) : Except Stuck (List Assignment) :=
  match first.2 with
  | [] => .ok [first.1]
  | sep :: after =>
      if isSeparator sep then (do
        let others ← assignments (sep :: after)
        .ok (first.1 :: others))
      else .error ⟨.afterAssignment, sep :: after⟩

theorem othersAfter_cons (a : Assignment) (sep : Token) (after : List Token) :
    othersAfter (a, sep :: after) =
      if isSeparator sep then (do
        let others ← assignments (sep :: after)
        .ok (a :: others))
      else .error ⟨.afterAssignment, sep :: after⟩ := rfl

/-- Separators stand before the first token that is none. -/
theorem exists_separators {input others : List Token} {first : Token}
    (h : input.dropWhile isSeparator = first :: others) :
    ∃ seps : List Token, (∀ sep ∈ seps, isSeparator sep = true) ∧ ¬isSeparator first = true ∧
      input = seps ++ first :: others := by
  refine ⟨input.takeWhile isSeparator, fun sep hsep => List.mem_takeWhile_imp hsep, ?_, ?_⟩
  · have hhead := List.head?_dropWhile_not isSeparator input
    rw [h] at hhead
    simpa using hhead
  · rw [← h, List.takeWhile_append_dropWhile]

theorem assignments_append {seps : List Token} (hseps : ∀ sep ∈ seps, isSeparator sep = true)
    {tok : Token} (htok : ¬isSeparator tok = true) {input : List Token}
    (hhead : input.head? = some tok) :
    assignments (seps ++ input) = assignment.run input >>= othersAfter := by
  cases input with
  | nil => cases hhead
  | cons tok' more =>
      cases hhead
      refine assignments_of_assignment ?_
      rw [List.dropWhile_append_of_pos hseps, List.dropWhile_cons_of_neg htok]

/-- The reader of assignments is stuck behind `taken`, though separated assignments go on there, and
whatever follows the first of `rest`. -/
structure AssignmentsStuck (taken rest : List Token) (reason : Reason) : Prop where
  continued : ∃ more, (∀ tok ∈ more, tok.IsWritten) ∧
    ∃ all, SeparatedAssignments all (taken ++ more)
  stuck : ∀ rest' : List Token, rest'.head? = rest.head? →
    assignments (taken ++ rest') = .error ⟨reason, rest'⟩

/-- A separator is taken: the reader of assignments is not stuck at it. -/
theorem AssignmentsStuck.more {taken rest : List Token} {reason : Reason} {sep : Token}
    {after : List Token} (h : AssignmentsStuck taken rest reason)
    (hsep : isSeparator sep = true) (hinput : sep :: after = taken ++ rest) :
    ∃ taken', taken = sep :: taken' := by
  cases taken with
  | cons sep' taken' =>
      cases hinput
      exact ⟨taken', rfl⟩
  | nil =>
      obtain rfl : sep :: after = rest := hinput
      have hstuck := h.stuck [sep] rfl
      rw [List.nil_append, assignments_of_separators (by simp [hsep])] at hstuck
      cases hstuck

theorem othersAfter_stuck {a : Assignment} {left rest : List Token} {reason : Reason}
    (h : othersAfter (a, left) = .error ⟨reason, rest⟩)
    (hothers : assignments left = .error ⟨reason, rest⟩ →
      ∃ taken, left = taken ++ rest ∧ AssignmentsStuck taken rest reason) :
    ∃ taken, left = taken ++ rest ∧
      (∃ more, (∀ tok ∈ more, tok.IsWritten) ∧ ∃ all, MoreAssignments all (taken ++ more)) ∧
      ∀ rest' : List Token, rest'.head? = rest.head? →
        othersAfter (a, taken ++ rest') = .error ⟨reason, rest'⟩ := by
  cases left with
  | nil => cases h
  | cons sep after =>
      rw [othersAfter_cons] at h
      by_cases hsep : isSeparator sep = true
      · rw [if_pos hsep] at h
        have herror : assignments (sep :: after) = .error ⟨reason, rest⟩ := by
          rcases Outcome.bind_eq_error_iff.1 h with herror | ⟨_, _, herror⟩
          · exact herror
          · cases herror
        obtain ⟨taken, htaken, hstuck⟩ := hothers herror
        obtain ⟨taken', rfl⟩ := hstuck.more hsep htaken
        obtain ⟨more, hmore, all, hall⟩ := hstuck.continued
        refine ⟨sep :: taken', htaken, ⟨more, hmore, all, hall.more (isSeparator_iff.1 hsep)⟩, ?_⟩
        intro rest' hhead
        rw [List.cons_append, othersAfter_cons, if_pos hsep, ← List.cons_append,
          hstuck.stuck rest' hhead]
        rfl
      · rw [if_neg hsep] at h
        cases h
        refine ⟨[], rfl, ⟨[], List.forall_mem_nil _, [], .done (List.forall_mem_nil _)⟩, ?_⟩
        intro rest' hhead
        obtain ⟨after', rfl⟩ := eq_cons_of_head? hhead
        exact if_neg hsep

theorem assignments_stuck {input rest : List Token} {reason : Reason}
    (hspelled : ∀ tok ∈ input, tok.Spelled) (h : assignments input = .error ⟨reason, rest⟩) :
    ∃ taken, input = taken ++ rest ∧ AssignmentsStuck taken rest reason := by
  -- an assignment takes three tokens at least, so fewer are left to the ones after it
  induction hlength : input.length using Nat.strongRecOn generalizing input with
  | _ n ih =>
      cases hdrop : input.dropWhile isSeparator with
      | nil =>
          rw [assignments_of_separators hdrop] at h
          cases h
      | cons first others =>
          obtain ⟨seps, hseps, hfirst, rfl⟩ := exists_separators hdrop
          have hseparates : ∀ sep ∈ seps, sep.Separates := fun sep hsep =>
            isSeparator_iff.1 (hseps sep hsep)
          obtain ⟨taken, left, outcome, hinput, hstop⟩ := assignment_steady (first :: others)
          have hothers : ∀ tok ∈ taken ++ left, tok.Spelled :=
            spelled_rest hspelled (congrArg (seps ++ ·) hinput)
          have hread := hstop left rfl
          have hrun : ∀ left' : List Token, left'.head? = left.head? →
              assignments (seps ++ (taken ++ left')) = stopped left' outcome >>= othersAfter := by
            intro left' hhead
            rw [← hstop left' hhead]
            refine assignments_append hseps hfirst ?_
            rw [List.head?_append, hhead, ← List.head?_append, ← hinput]
            rfl
          rw [hinput] at hlength h ⊢
          rw [hrun left rfl] at h
          cases outcome with
          | error reason' =>
              cases h
              obtain ⟨taken', more, a, htaken, hall, hvalid, hmore⟩ :=
                assignment_resumes hothers hread
              obtain rfl := List.append_cancel_right htaken
              refine ⟨seps ++ taken, (List.append_assoc ..).symm, ⟨more, hmore, [a], ?_⟩, ?_⟩
              · rw [List.append_assoc, ← hall, ← List.append_nil a.all]
                exact .first hseparates hvalid (.done (List.forall_mem_nil _))
              · intro rest' hhead
                rw [List.append_assoc, hrun rest' hhead]
                rfl
          | ok a =>
              obtain ⟨tokens, htokens, hvalid, _⟩ := assignment_sound hothers hread
              obtain rfl := List.append_cancel_right htokens
              have hlt : left.length < n := by
                rw [← hlength]
                simp only [AssignmentTokens.all, List.length_append, List.length_cons]
                omega
              obtain ⟨taken, rfl, ⟨more, hmore, all, hall⟩, hstuck⟩ :=
                othersAfter_stuck h fun herror => ih _ hlt (spelled_rest hothers rfl) herror rfl
              refine ⟨seps ++ (tokens.all ++ taken), ?_, ⟨more, hmore, tokens :: all, ?_⟩, ?_⟩
              · rw [List.append_assoc, List.append_assoc]
              · rw [List.append_assoc, List.append_assoc]
                exact .first hseparates hvalid hall
              · intro rest' hhead
                rw [List.append_assoc, List.append_assoc, hrun]
                · exact hstuck rest' hhead
                · rw [List.head?_append, List.head?_append, hhead]

/-! The word before the assignments -/

theorem dropWhere_of_equals (word : Token) {sign : Token} (hsign : sign.kind = .equals)
    (after : List Token) : dropWhere (word :: sign :: after) = word :: sign :: after := by
  refine if_neg ?_
  rintro ⟨_, _, hnext⟩
  rw [List.find?_cons_of_pos (by simp [hsign])] at hnext
  exact hnext (congrArg some hsign)

end Reader

/-- The word `where` stands first, and behind it line feeds and then an equals sign. -/
structure BreaksAfterWhere (ts : List Token) (word : Token) (feeds : List Token) (sign : Token) :
    Prop where
  begins : ∃ after, ts = word :: (feeds ++ sign :: after)
  ident : word.kind = .ident
  keyword : word.text = whereKeyword
  nonempty : feeds ≠ []
  newlines : ∀ feed ∈ feeds, feed.kind = .newline
  equals : sign.kind = .equals

namespace Reader

/-- A clause begins with the word that is dropped, or with something that is not this word, or with
this word as a target, or with this word and line feeds before an equals sign. -/
theorem dropWhere_cases (input : List Token) :
    (∃ word after, input = word :: after ∧ word.kind = .ident ∧ word.text = whereKeyword ∧
      dropWhere input = after ∧ ∀ tok ∈ after.head?, tok.kind ≠ .equals) ∨
    (∀ input' : List Token, input'.head? = input.head? → dropWhere input' = input') ∨
    (∃ word sign after, input = word :: sign :: after ∧ word.kind = .ident ∧
      sign.kind = .equals) ∨
    ∃ word feeds sign, BreaksAfterWhere input word feeds sign := by
  cases input with
  | nil =>
      refine .inr (.inl fun input' hhead => ?_)
      rw [eq_nil_of_head? hhead]
      rfl
  | cons word after =>
      by_cases hword : word.kind = .ident ∧ word.text = whereKeyword
      · by_cases hnext : (after.find? (·.kind ≠ .newline)).map (·.kind) = some .equals
        · obtain ⟨sign, hfind, hsign⟩ := Option.map_eq_some_iff.1 hnext
          obtain ⟨_, feeds, rest, rfl, hfeeds⟩ := List.find?_eq_some_iff_append.1 hfind
          cases feeds with
          | nil => exact .inr (.inr (.inl ⟨word, sign, rest, rfl, hword.1, hsign⟩))
          | cons feed feeds =>
              refine .inr (.inr (.inr ⟨word, feed :: feeds, sign, ⟨rest, rfl⟩, hword.1, hword.2,
                List.cons_ne_nil _ _, fun tok htok => ?_, hsign⟩))
              simpa using hfeeds tok htok
        · refine .inl ⟨word, after, rfl, hword.1, hword.2, if_pos ⟨hword.1, hword.2, hnext⟩, ?_⟩
          intro tok htok hequals
          obtain ⟨rest, rfl⟩ : ∃ rest, after = tok :: rest := by
            cases after with
            | nil => cases htok
            | cons tok' rest =>
                cases htok
                exact ⟨rest, rfl⟩
          rw [List.find?_cons_of_pos (by simp [hequals])] at hnext
          exact hnext (congrArg some hequals)
      · refine .inr (.inl fun input' hhead => ?_)
        obtain ⟨after', rfl⟩ := eq_cons_of_head? hhead
        exact if_neg fun h => hword ⟨h.1, h.2.1⟩

theorem assignments_of_ident {word : Token} (hword : word.kind = .ident) (after : List Token) :
    assignments (word :: after) = assignment.run (word :: after) >>= othersAfter := by
  have hsep : ¬isSeparator word = true := by simp [isSeparator, hword]
  exact assignments_append (List.forall_mem_nil _) hsep rfl

/-- A target and its equals sign are taken: the reader of assignments is not stuck at them. -/
theorem AssignmentsStuck.target {taken rest after : List Token} {reason : Reason}
    {word sign : Token} (h : AssignmentsStuck taken rest reason) (hword : word.kind = .ident)
    (hsign : sign.kind = .equals) (hinput : word :: sign :: after = taken ++ rest) :
    ∃ taken', taken = word :: sign :: taken' := by
  match taken, h, hinput with
  | [], h, hinput =>
      obtain rfl : word :: sign :: after = rest := hinput
      have hstuck := h.stuck [word] rfl
      rw [List.nil_append, assignments_of_ident hword, run_assignment_cons,
        if_neg (not_not.2 hword)] at hstuck
      cases hstuck
  | [_], h, hinput =>
      obtain ⟨rfl, rfl⟩ := List.cons.inj hinput
      have hstuck := h.stuck [sign] rfl
      rw [List.singleton_append, assignments_of_ident hword, run_assignment hword hsign] at hstuck
      cases hstuck
  | _ :: _ :: taken', _, hinput =>
      simp only [List.cons_append, List.cons.injEq] at hinput
      obtain ⟨rfl, rfl, _⟩ := hinput
      exact ⟨taken', rfl⟩

theorem AssignmentsStuck.not_separated {taken rest rest' : List Token} {reason : Reason}
    (h : AssignmentsStuck taken rest reason) (hhead : rest'.head? = rest.head?)
    (hspelled : ∀ tok ∈ taken ++ rest', tok.Spelled) (all : List AssignmentTokens) :
    ¬SeparatedAssignments all (taken ++ rest') := by
  intro hall
  obtain ⟨as, has⟩ := hall.exists_fits hspelled
  have hread := h.stuck rest' hhead
  rw [assignments_complete hall has] at hread
  cases hread

/-- A clause of which nothing is dropped, whatever follows the next token, is one of assignments. -/
theorem AssignmentsStuck.fault_of_bare {taken rest : List Token} {reason : Reason}
    (h : AssignmentsStuck taken rest reason) (hspelled : ∀ tok ∈ taken ++ rest, tok.Spelled)
    (hbare : ∀ rest' : List Token, rest'.head? = rest.head? →
      dropWhere (taken ++ rest') = taken ++ rest') :
    FaultBehind (fun ts => ∃ all, IsClause all ts) taken rest where
  continued := by
    obtain ⟨more, hmore, all, hall⟩ := h.continued
    exact ⟨more, hmore, all, .bare hall⟩
  refused := by
    rintro rest' hrest' hhead ⟨all, hclause⟩
    have hassignments := isClause_iff.1 hclause
    rw [hbare rest' hhead] at hassignments
    exact h.not_separated hhead (spelled_append hspelled hrest') all hassignments

/-- A clause that begins with the keyword, behind which no equals sign comes next, is one of the
assignments that follow. -/
theorem AssignmentsStuck.fault_of_keyword {taken rest : List Token} {reason : Reason} {word : Token}
    (h : AssignmentsStuck taken rest reason) (hspelled : ∀ tok ∈ taken ++ rest, tok.Spelled)
    (hident : word.kind = .ident) (hkeyword : word.text = whereKeyword)
    (hnext : ∀ tok ∈ (taken ++ rest).head?, tok.kind ≠ .equals) :
    FaultBehind (fun ts => ∃ all, IsClause all ts) (word :: taken) rest where
  continued := by
    obtain ⟨more, hmore, all, hall⟩ := h.continued
    exact ⟨more, hmore, all, .keyword hident hkeyword hall⟩
  refused := by
    rintro rest' hrest' hhead ⟨all, hclause⟩
    cases hclause with
    | bare assignments =>
        -- without a keyword the word is a target, but no equals sign follows it
        obtain ⟨sign, others, hothers, hsign⟩ := assignments.sign_of_ident hident
        refine hnext sign ?_ hsign
        rw [List.head?_append, ← hhead, ← List.head?_append]
        exact congrArg List.head? hothers
    | keyword _ _ assignments =>
        exact h.not_separated hhead (spelled_append hspelled hrest') _ assignments

/-- Where the reader of a clause is stuck is the fault of the grammar, unless the clause breaks off
after the word `where`. -/
theorem clause_stuck {input rest : List Token} {reason : Reason}
    (hspelled : ∀ tok ∈ input, tok.Spelled)
    (h : assignments (dropWhere input) = .error ⟨reason, rest⟩)
    (hbreaks : ∀ word feeds sign, ¬BreaksAfterWhere input word feeds sign) :
    ∃ taken, input = taken ++ rest ∧ FaultBehind (fun ts => ∃ all, IsClause all ts) taken rest := by
  rcases dropWhere_cases input with
    ⟨word, after, rfl, hident, hkeyword, hdrop, hnext⟩ | hplain | ⟨word, sign, after, rfl, hword, hsign⟩ |
      ⟨word, feeds, sign, hbreak⟩
  · rw [hdrop] at h
    have hafter := (List.forall_mem_cons.1 hspelled).2
    obtain ⟨taken, rfl, hstuck⟩ := assignments_stuck hafter h
    exact ⟨word :: taken, rfl, hstuck.fault_of_keyword hafter hident hkeyword hnext⟩
  · rw [hplain input rfl] at h
    obtain ⟨taken, rfl, hstuck⟩ := assignments_stuck hspelled h
    refine ⟨taken, rfl, hstuck.fault_of_bare hspelled fun rest' hhead => ?_⟩
    refine hplain _ ?_
    rw [List.head?_append, List.head?_append, hhead]
  · rw [dropWhere_of_equals word hsign] at h
    obtain ⟨taken, hinput, hstuck⟩ := assignments_stuck hspelled h
    obtain ⟨taken, rfl⟩ := hstuck.target hword hsign hinput
    rw [hinput] at hspelled
    exact ⟨word :: sign :: taken, hinput, hstuck.fault_of_bare hspelled fun rest' _ =>
      dropWhere_of_equals word hsign _⟩
  · exact absurd hbreak (hbreaks word feeds sign)

end Reader

namespace BreaksAfterWhere

variable {ts feeds : List Token} {word sign : Token}

/-- The word is taken for a target then, and the reader is stuck behind it. -/
theorem stuck (h : BreaksAfterWhere ts word feeds sign) {stuck : Stuck}
    (hstuck : Reader.assignments (Reader.dropWhere ts) = .error stuck) :
    ts = word :: stuck.rest ∧ stuck.rest.head? = feeds.head? := by
  obtain ⟨after, rfl⟩ := h.begins
  have hdrop : Reader.dropWhere (word :: (feeds ++ sign :: after)) =
      word :: (feeds ++ sign :: after) := by
    refine if_neg ?_
    rintro ⟨_, _, hnext⟩
    rw [List.find?_append, List.find?_eq_none.2 (by simpa using h.newlines),
      List.find?_cons_of_pos (by simp [h.equals])] at hnext
    exact hnext (congrArg some h.equals)
  obtain ⟨feed, others, hfeeds⟩ := List.exists_cons_of_ne_nil h.nonempty
  have hfeed : feed.kind ≠ .equals := by
    rw [h.newlines feed (hfeeds ▸ List.mem_cons_self)]
    decide
  rw [hdrop, Reader.assignments_of_ident h.ident, Reader.run_assignment_cons,
    if_neg (not_not.2 h.ident), hfeeds, List.cons_append] at hstuck
  simp only [if_pos hfeed] at hstuck
  cases hstuck
  exact ⟨by rw [hfeeds, List.cons_append], by rw [hfeeds]; rfl⟩

theorem isClause (h : BreaksAfterWhere ts word feeds sign) : IsClause [] (word :: feeds) :=
  .keyword h.ident h.keyword (.empty fun feed hfeed => .inl (h.newlines feed hfeed))

/-- The fault of the grammar is the equals sign. -/
theorem fault (h : BreaksAfterWhere ts word feeds sign) (after : List Token) :
    FaultBehind (fun ts => ∃ all, IsClause all ts) (word :: feeds) (sign :: after) where
  continued := ⟨[], List.forall_mem_nil _, [], (List.append_nil (word :: feeds)).symm ▸ h.isClause⟩
  refused := by
    rintro rest' - hhead ⟨all, hclause⟩
    obtain ⟨after', rfl⟩ := Reader.eq_cons_of_head? hhead
    rw [List.cons_append] at hclause
    cases hclause with
    | bare assignments =>
        obtain ⟨sign', rest, heq, hsign'⟩ := assignments.sign_of_ident h.ident
        obtain ⟨feed, others, rfl⟩ := List.exists_cons_of_ne_nil h.nonempty
        cases heq
        rw [h.newlines sign' List.mem_cons_self] at hsign'
        cases hsign'
    | keyword _ _ assignments =>
        refine assignments.find?_ne_equals ?_
        rw [List.find?_append, List.find?_eq_none.2 (by simpa using h.newlines),
          List.find?_cons_of_pos (by simp [h.equals])]
        exact congrArg some h.equals

end BreaksAfterWhere

/-! Sources -/

section Sources

variable {source : String} {s : Scanned}

theorem parseAssignments_eq_error_iff (h : scan source = .ok s) {e : CompileError} :
    parseAssignments source = .error e ↔
      ∃ stuck, Reader.assignments (Reader.dropWhere (clauseTokens s.tokens)) = .error stuck ∧
        .inSource source (stuck.fault s) = e := by
  rw [parseAssignments, scanSource, h, ← significant_eq_clauseTokens]
  exact Outcome.mapError_eq_error_iff

theorem isWritten_clauseTokens (h : scan source = .ok s) :
    ∀ tok ∈ clauseTokens s.tokens, tok.IsWritten := by
  intro tok htok
  exact isWritten_of_scan h tok ((decidedBy_isClause.count_sublist s.tokens).mem htok)

namespace BreaksAfterWhere

variable {word sign : Token} {feeds : List Token}

theorem canBeContinued (h : scan source = .ok s)
    (hbreaks : BreaksAfterWhere (clauseTokens s.tokens) word feeds sign) {ts : List Token}
    (hts : ts <+: word :: feeds) : CanBeContinued clauseTokens IsClauseSource ts := by
  have hwritten := isWritten_clauseTokens h
  obtain ⟨after, hbegins⟩ := hbreaks.begins
  obtain ⟨others, hothers⟩ := hts
  rw [hbegins, ← List.cons_append, List.forall_mem_append, ← hothers, List.forall_mem_append]
    at hwritten
  refine (decidedBy_isClause.canBeContinued_iff hwritten.1.1).2 ⟨others, hwritten.1.2, [], ?_⟩
  rw [hothers]
  exact hbreaks.isClause

/-- The error is reported at the first line feed then, though the tokens can be continued up to the
equals sign. -/
theorem blames (h : scan source = .ok s)
    (hbreaks : BreaksAfterWhere (clauseTokens s.tokens) word feeds sign) {e : CompileError}
    (he : parseAssignments source = .error e) :
    ∃ feed ∈ feeds.head?, e.Blames clauseTokens source s [word] feed ∧
      IsFirstFault clauseTokens IsClauseSource (word :: feeds) sign := by
  obtain ⟨stuck, hstuck, rfl⟩ := (parseAssignments_eq_error_iff h).1 he
  obtain ⟨hinput, hhead⟩ := hbreaks.stuck hstuck
  obtain ⟨feed, others, rfl⟩ := List.exists_cons_of_ne_nil hbreaks.nonempty
  have hcurrent : s.current stuck.rest = feed := by
    rw [Scanned.current, hhead]
    rfl
  refine ⟨feed, rfl, hcurrent ▸ decidedBy_isClause.blames h hinput, ?_⟩
  have hwritten := isWritten_clauseTokens h
  obtain ⟨after, hbegins⟩ := hbreaks.begins
  rw [hbegins, ← List.cons_append] at hwritten
  exact decidedBy_isClause.isFirstFault s hwritten (hbreaks.fault after)

end BreaksAfterWhere

/-- The error of a clause that is rejected is reported at a token behind tokens that can be
continued. This is the first fault, unless the clause begins with the word `where`, line feeds and
an equals sign. Then it is the first line feed, and the first fault is the equals sign. -/
theorem parseAssignments_error_at_first_fault (h : scan source = .ok s) {e : CompileError}
    (he : parseAssignments source = .error e) :
    ∃ before tok, e.Blames clauseTokens source s before tok ∧
      CanBeContinued clauseTokens IsClauseSource before ∧
      ((∀ word feeds sign, ¬BreaksAfterWhere (clauseTokens s.tokens) word feeds sign) →
        IsFirstFault clauseTokens IsClauseSource before tok) ∧
      ∀ word feeds sign, BreaksAfterWhere (clauseTokens s.tokens) word feeds sign →
        before = [word] ∧ feeds.head? = some tok ∧
          IsFirstFault clauseTokens IsClauseSource (word :: feeds) sign := by
  by_cases hbreaks : ∃ word feeds sign, BreaksAfterWhere (clauseTokens s.tokens) word feeds sign
  · obtain ⟨word, feeds, sign, hbreaks⟩ := hbreaks
    obtain ⟨feed, hfeed, hblames, _⟩ := hbreaks.blames h he
    refine ⟨[word], feed, hblames, hbreaks.canBeContinued h ?_, ?_, ?_⟩
    · exact List.prefix_append [word] feeds
    · intro hnone
      exact absurd hbreaks (hnone word feeds sign)
    · intro word' feeds' sign' hbreaks'
      obtain ⟨feed', hfeed', hblames', hfirst⟩ := hbreaks'.blames h he
      obtain ⟨hword, rfl⟩ := decidedBy_isClause.blames_unique h hblames hblames'
      exact ⟨hword.symm, hfeed', hfirst⟩
  · have hnone : ∀ word feeds sign, ¬BreaksAfterWhere (clauseTokens s.tokens) word feeds sign :=
      fun word feeds sign hbreak => hbreaks ⟨word, feeds, sign, hbreak⟩
    obtain ⟨⟨reason, rest⟩, hstuck, rfl⟩ := (parseAssignments_eq_error_iff h).1 he
    have hwritten := isWritten_clauseTokens h
    obtain ⟨taken, hinput, hfault⟩ :=
      Reader.clause_stuck (fun tok htok => (hwritten tok htok).spelled) hstuck hnone
    have hfirst := decidedBy_isClause.isFirstFault s (hinput ▸ hwritten) hfault
    refine ⟨taken, s.current rest, decidedBy_isClause.blames h hinput, hfirst.continued,
      fun _ => hfirst, ?_⟩
    intro word feeds sign hbreak
    exact absurd hbreak (hnone word feeds sign)

theorem parseAssignments_error_at_first_fault_group :
    ∃ s e before tok, scan "where u = (t\n+ ) ; v = u" = .ok s ∧
      parseAssignments "where u = (t\n+ ) ; v = u" = .error e ∧
      e.Blames clauseTokens "where u = (t\n+ ) ; v = u" s before tok ∧
      IsFirstFault clauseTokens IsClauseSource before tok := by
  have h : scan "where u = (t\n+ ) ; v = u" = .ok
      ⟨[⟨.ident, "where", ⟨0, 1, 1⟩⟩, ⟨.ident, "u", ⟨6, 1, 7⟩⟩, ⟨.equals, "=", ⟨8, 1, 9⟩⟩,
        ⟨.lparen, "(", ⟨10, 1, 11⟩⟩, ⟨.ident, "t", ⟨11, 1, 12⟩⟩, ⟨.newline, "\n", ⟨12, 1, 13⟩⟩,
        ⟨.plus, "+", ⟨13, 2, 1⟩⟩, ⟨.rparen, ")", ⟨15, 2, 3⟩⟩, ⟨.semicolon, ";", ⟨17, 2, 5⟩⟩,
        ⟨.ident, "v", ⟨19, 2, 7⟩⟩, ⟨.equals, "=", ⟨21, 2, 9⟩⟩, ⟨.ident, "u", ⟨23, 2, 11⟩⟩],
        ⟨24, 2, 12⟩⟩ := by
    decide +kernel
  have hrejected : (parseAssignments "where u = (t\n+ ) ; v = u").isOk = false := by
    decide +kernel
  cases he : parseAssignments "where u = (t\n+ ) ; v = u" with
  | ok as =>
      rw [he] at hrejected
      cases hrejected
  | error e =>
      obtain ⟨before, tok, hblames, _, hfirst, _⟩ := parseAssignments_error_at_first_fault h he
      refine ⟨_, e, before, tok, h, rfl, hblames, hfirst ?_⟩
      -- behind the word stands a name and no line feed
      intro word feeds sign hbreaks
      obtain ⟨after, hbegins⟩ := hbreaks.begins
      obtain ⟨feed, others, rfl⟩ := List.exists_cons_of_ne_nil hbreaks.nonempty
      have hfeed := hbreaks.newlines feed List.mem_cons_self
      rw [← significant_eq_clauseTokens] at hbegins
      obtain ⟨_, hbegins⟩ := List.cons.inj hbegins
      obtain ⟨rfl, _⟩ := List.cons.inj hbegins
      cases hfeed

/-- The error of a clause that is rejected is not always reported at its first fault: here it is
reported at the line feed, behind which the clause might end. -/
theorem parseAssignments_error_before_first_fault :
    ∃ s e, scan "where\n= 1" = .ok s ∧ parseAssignments "where\n= 1" = .error e ∧
      e.place = ⟨1, 6, some "where"⟩ ∧
      ¬∃ before tok, e.Blames clauseTokens "where\n= 1" s before tok ∧
        IsFirstFault clauseTokens IsClauseSource before tok := by
  have h : scan "where\n= 1" = .ok
      ⟨[⟨.ident, "where", ⟨0, 1, 1⟩⟩, ⟨.newline, "\n", ⟨5, 1, 6⟩⟩, ⟨.equals, "=", ⟨6, 2, 1⟩⟩,
        ⟨.number, "1", ⟨8, 2, 3⟩⟩], ⟨9, 2, 4⟩⟩ := by
    decide +kernel
  have hbreaks : BreaksAfterWhere
      (clauseTokens [⟨.ident, "where", ⟨0, 1, 1⟩⟩, ⟨.newline, "\n", ⟨5, 1, 6⟩⟩,
        ⟨.equals, "=", ⟨6, 2, 1⟩⟩, ⟨.number, "1", ⟨8, 2, 3⟩⟩])
      ⟨.ident, "where", ⟨0, 1, 1⟩⟩ [⟨.newline, "\n", ⟨5, 1, 6⟩⟩] ⟨.equals, "=", ⟨6, 2, 1⟩⟩ :=
    ⟨⟨[⟨.number, "1", ⟨8, 2, 3⟩⟩], by decide⟩, rfl, rfl, List.cons_ne_nil _ _, by decide, rfl⟩
  have hrejected : (parseAssignments "where\n= 1").isOk = false := by
    decide +kernel
  cases he : parseAssignments "where\n= 1" with
  | ok as =>
      rw [he] at hrejected
      cases hrejected
  | error e =>
      obtain ⟨feed, hfeed, hblames, _⟩ := hbreaks.blames h he
      cases hfeed
      refine ⟨_, e, h, rfl, ?_, ?_⟩
      · rw [hblames.reported.place]
        decide
      · rintro ⟨before, tok, hblames', hfirst⟩
        obtain ⟨rfl, rfl⟩ := decidedBy_isClause.blames_unique h hblames hblames'
        exact hfirst.ends (hbreaks.canBeContinued h (List.prefix_refl _))

end Sources

end FlightCurve

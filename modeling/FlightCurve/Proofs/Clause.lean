import Mathlib.Data.List.TakeWhile
import FlightCurve.Compilation
import FlightCurve.Proofs.Reading
import FlightCurve.Proofs.Scanning

/-!
What is accepted as a where clause, and which assignments are read from it. Separators are not
operators, so the value of an assignment ends before the next one, and the tokens of a clause divide
into assignments in one way at most.
-/

namespace FlightCurve

/-! Line feeds inside parentheses -/

theorem significant_cons (n : Nat) (tok : Token) (rest : List Token) :
    significant n (tok :: rest) =
      if tok.kind = .newline ∧ 0 < n then significant n rest
      else tok :: significant (tok.openAfter n) rest := by
  unfold Token.openAfter
  cases hkind : tok.kind <;> simp only [significant, hkind]
  case newline => cases n <;> simp
  all_goals simp

/-- Dropping line feeds while the open parentheses are counted leaves what it should. -/
theorem significant_eq_clauseTokens (ts : List Token) : significant 0 ts = clauseTokens ts := by
  -- the tokens `us` were read before, so the index of the next one is their number
  have hrest : ∀ us : List Token, significant (openAfter 0 us) ts =
      ((ts.zipIdx us.length).filter fun p =>
        ¬(p.1.kind = .newline ∧ 0 < openAfter 0 ((us ++ ts).take p.2))).map (·.1) := by
    induction ts with
    | nil => intro us; rfl
    | cons tok rest ih =>
        intro us
        have hnext : (us ++ [tok]) ++ rest = us ++ tok :: rest := by simp
        have hopen : openAfter 0 (us ++ [tok]) = tok.openAfter (openAfter 0 us) :=
          openAfter_append 0 us [tok]
        have hlength : (us ++ [tok]).length = us.length + 1 := by simp
        have htake : (us ++ tok :: rest).take us.length = us := List.take_left
        have hih := ih (us ++ [tok])
        rw [hnext, hopen, hlength] at hih
        rw [significant_cons, List.zipIdx_cons, List.filter_cons]
        by_cases hblank : tok.kind = .newline ∧ 0 < openAfter 0 us
        · have hsame : tok.openAfter (openAfter 0 us) = openAfter 0 us := by
            rw [Token.openAfter, hblank.1]
          rw [if_pos hblank, if_neg, ← hih, hsame]
          simpa only [htake, decide_eq_true_eq, not_not] using hblank
        · rw [if_neg hblank, if_pos, List.map_cons, hih]
          simpa only [htake, decide_eq_true_eq] using hblank
  exact hrest []

theorem clauseTokens_sublist (ts : List Token) : (clauseTokens ts).Sublist ts := by
  have hmap : (ts.zipIdx.map Prod.fst).Sublist ts := by
    rw [List.zipIdx_map_fst]
  exact (List.filter_sublist.map Prod.fst).trans hmap

/-! Where values end -/

theorem Reader.isSeparator_iff {tok : Token} : isSeparator tok = true ↔ tok.Separates := by
  simp [isSeparator, Token.Separates]

theorem Token.Separates.endsBefore {tok : Token} (h : tok.Separates) (rest : List Token) :
    (Rule.chain .sum).EndsBefore (tok :: rest) := by
  refine Rule.endsBefore_cons ?_
  rcases h with h | h
  · rw [h]
    decide
  · rw [h]
    decide

theorem not_separates_of_ident {tok : Token} (h : tok.kind = .ident) : ¬tok.Separates := by
  rintro (h' | h')
  · rw [h] at h'
    cases h'
  · rw [h] at h'
    cases h'

theorem upToSeparator_append {n : Nat} {ts rest : List Token} (hts : ∀ tok ∈ ts, ¬tok.Separates)
    (hclosed : openAfter n ts = 0) (hrest : ∀ tok ∈ rest.head?, tok.Separates) :
    upToSeparator n (ts ++ rest) = ts := by
  induction ts generalizing n with
  | nil =>
      change n = 0 at hclosed
      cases rest with
      | nil => rfl
      | cons tok rest => exact if_pos ⟨hclosed, hrest tok rfl⟩
  | cons tok ts ih =>
      rw [List.forall_mem_cons] at hts
      rw [List.cons_append, upToSeparator, if_neg fun h => hts.1 h.2, ih hts.2 hclosed]

namespace AssignmentTokens.Valid

theorem value_eq_upToSeparator {a : AssignmentTokens} (h : a.Valid) {rest : List Token}
    (hrest : ∀ tok ∈ rest.head?, tok.Separates) : upToSeparator 0 (a.value ++ rest) = a.value := by
  obtain ⟨k, hk⟩ := h.value.derives.exists_nestsTo
  refine upToSeparator_append ?_ (hk 0).1 hrest
  intro tok htok hseparates
  obtain ⟨_, hnewline, hsemicolon⟩ := h.value.derives.kind_ne tok htok
  rcases hseparates with h | h
  · exact hnewline h
  · exact hsemicolon h

theorem dropWhile_separators {a : AssignmentTokens} (h : a.Valid) {seps : List Token}
    (hseps : ∀ tok ∈ seps, tok.Separates) (rest : List Token) :
    (seps ++ (a.all ++ rest)).dropWhile Reader.isSeparator =
      a.target :: a.sign :: (a.value ++ rest) := by
  rw [List.dropWhile_append_of_pos fun tok htok => Reader.isSeparator_iff.2 (hseps tok htok)]
  refine List.dropWhile_cons_of_neg ?_
  simp [Reader.isSeparator, h.ident]

/-- Separators and an assignment are cut off the front in one way only. -/
theorem split_unique {a a' : AssignmentTokens} (h : a.Valid) (h' : a'.Valid)
    {seps seps' ts ts' : List Token} (hseps : ∀ tok ∈ seps, tok.Separates)
    (hseps' : ∀ tok ∈ seps', tok.Separates) (hts : ∀ tok ∈ ts.head?, tok.Separates)
    (hts' : ∀ tok ∈ ts'.head?, tok.Separates)
    (heq : seps ++ (a.all ++ ts) = seps' ++ (a'.all ++ ts')) : a' = a ∧ ts' = ts := by
  -- behind the separators both begin with the target, and both values reach up to a separator
  have hall := h.dropWhile_separators hseps ts
  rw [heq, h'.dropWhile_separators hseps' ts'] at hall
  obtain ⟨target, sign, value⟩ := a
  obtain ⟨target', sign', value'⟩ := a'
  simp only [List.cons.injEq] at hall
  obtain ⟨rfl, rfl, hvalues⟩ := hall
  have hvalue : value = value' := by
    have hup := h.value_eq_upToSeparator hts
    rw [← hvalues, h'.value_eq_upToSeparator hts'] at hup
    exact hup.symm
  subst hvalue
  exact ⟨rfl, List.append_cancel_left hvalues⟩

end AssignmentTokens.Valid

/-! Separated assignments -/

theorem MoreAssignments.head_separates {as : List AssignmentTokens} {ts : List Token}
    (h : MoreAssignments as ts) : ∀ tok ∈ ts.head?, tok.Separates := by
  intro tok htok
  cases h with
  | done separates => exact separates tok (List.mem_of_mem_head? htok)
  | @more seps _ _ _ separates nonempty _ _ =>
      cases seps with
      | nil => exact absurd rfl nonempty
      | cons sep seps =>
          cases htok
          exact separates _ List.mem_cons_self

theorem MoreAssignments.separated {as : List AssignmentTokens} {ts : List Token}
    (h : MoreAssignments as ts) : SeparatedAssignments as ts := by
  cases h with
  | done separates => exact .empty separates
  | more separates _ valid rest => exact .first separates valid rest

namespace SeparatedAssignments

theorem more {as : List AssignmentTokens} {tok : Token} {ts : List Token}
    (h : SeparatedAssignments as (tok :: ts)) (htok : tok.Separates) :
    MoreAssignments as (tok :: ts) := by
  generalize hinput : tok :: ts = input at h
  cases h with
  | empty separates => exact .done separates
  | @first seps _ a _ separates valid rest =>
      refine .more separates ?_ valid rest
      rintro rfl
      cases hinput
      exact not_separates_of_ident valid.ident htok

/-- Tokens are separated assignments in one way at most. -/
theorem unique {as as' : List AssignmentTokens} {ts : List Token} (h : SeparatedAssignments as ts)
    (h' : SeparatedAssignments as' ts) : as' = as := by
  -- the first assignment is cut off both ways, and what is left is separated again
  induction as generalizing as' ts with
  | nil =>
      cases h with
      | empty separates =>
          generalize hinput : ts = input at h'
          cases h' with
          | empty _ => rfl
          | @first seps us a _ _ valid _ =>
              have hmem : a.target ∈ ts := by
                rw [hinput, AssignmentTokens.all]
                simp
              exact absurd (separates _ hmem) (not_separates_of_ident valid.ident)
  | cons a as ih =>
      cases h with
      | @first seps us _ _ separates valid rest =>
          generalize hinput : seps ++ (a.all ++ us) = input at h'
          cases h' with
          | empty separates' =>
              have hmem : a.target ∈ input := by
                rw [← hinput, AssignmentTokens.all]
                simp
              exact absurd (separates' _ hmem) (not_separates_of_ident valid.ident)
          | @first seps' us' a' as' separates' valid' rest' =>
              obtain ⟨rfl, rfl⟩ := valid.split_unique valid' separates separates'
                rest.head_separates rest'.head_separates hinput
              rw [ih rest.separated rest'.separated]

theorem standsIn {as : List AssignmentTokens} {ts : List Token} (h : SeparatedAssignments as ts) :
    ∀ a ∈ as, a.StandsIn ts := by
  induction as generalizing ts with
  | nil =>
      intro a ha
      cases ha
  | cons a as ih =>
      cases h with
      | @first seps us _ _ _ valid rest =>
          rw [List.forall_mem_cons]
          constructor
          · exact ⟨seps, us, rfl, (valid.value_eq_upToSeparator rest.head_separates).symm⟩
          · intro b hb
            obtain ⟨before, after, rfl, hvalue⟩ := ih rest.separated b hb
            exact ⟨seps ++ (a.all ++ before), after, by simp, hvalue⟩

/-- An equals sign is not the first thing but line feeds. -/
theorem find?_ne_equals {as : List AssignmentTokens} {ts : List Token}
    (h : SeparatedAssignments as ts) :
    (ts.find? (·.kind ≠ .newline)).map (·.kind) ≠ some .equals := by
  rw [ne_eq, Option.map_eq_some_iff]
  rintro ⟨tok, htok, hequals⟩
  have hseparates : ∀ seps : List Token, (∀ sep ∈ seps, sep.Separates) → tok ∉ seps := by
    intro seps hseps hmem
    rcases hseps tok hmem with h | h
    · rw [h] at hequals
      cases hequals
    · rw [h] at hequals
      cases hequals
  cases h with
  | empty separates => exact hseparates _ separates (List.mem_of_find?_eq_some htok)
  | @first seps us a _ separates valid _ =>
      rw [List.find?_append, Option.or_eq_some_iff] at htok
      rcases htok with htok | ⟨_, htok⟩
      · exact hseparates seps separates (List.mem_of_find?_eq_some htok)
      · rw [AssignmentTokens.all, List.cons_append, List.find?_cons_of_pos] at htok
        · cases htok
          rw [valid.ident] at hequals
          cases hequals
        · simp [valid.ident]

/-- After the target of the first assignment stands an equals sign. -/
theorem sign_of_ident {as : List AssignmentTokens} {tok : Token} {ts : List Token}
    (h : SeparatedAssignments as (tok :: ts)) (hident : tok.kind = .ident) :
    ∃ sign rest, ts = sign :: rest ∧ sign.kind = .equals := by
  generalize hinput : tok :: ts = input at h
  cases h with
  | empty separates =>
      have htok := separates tok (hinput ▸ List.mem_cons_self)
      exact absurd htok (not_separates_of_ident hident)
  | @first seps us a _ separates valid rest =>
      cases seps with
      | nil =>
          cases hinput
          exact ⟨a.sign, a.value ++ us, rfl, valid.equals⟩
      | cons sep seps =>
          cases hinput
          have htok := separates tok List.mem_cons_self
          exact absurd htok (not_separates_of_ident hident)

end SeparatedAssignments

/-! The word `where` -/

/-- A leading `where` is dropped exactly where it is the keyword. -/
theorem isClause_iff {as : List AssignmentTokens} {ts : List Token} :
    IsClause as ts ↔ SeparatedAssignments as (Reader.dropWhere ts) := by
  cases ts with
  | nil =>
      constructor
      · rintro (h | _)
        exact h
      · exact .bare
  | cons tok after =>
      rw [Reader.dropWhere]
      split
      · rename_i hwhere
        obtain ⟨hident, hkeyword, hfollow⟩ := hwhere
        constructor
        · rintro (h | ⟨_, _, h⟩)
          · -- without a keyword the word is a target, but no equals sign follows it
            obtain ⟨sign, rest, rfl, hsign⟩ := h.sign_of_ident hident
            refine absurd ?_ hfollow
            rw [List.find?_cons_of_pos]
            · exact congrArg some hsign
            · simp [hsign]
          · exact h
        · exact .keyword hident hkeyword
      · rename_i hwhere
        constructor
        · rintro (h | ⟨hident, hkeyword, h⟩)
          · exact h
          · -- behind a keyword nothing begins with an equals sign
            exact absurd ⟨hident, hkeyword, h.find?_ne_equals⟩ hwhere
        · exact .bare

theorem IsClause.unique {as as' : List AssignmentTokens} {ts : List Token} (h : IsClause as ts)
    (h' : IsClause as' ts) : as' = as :=
  (isClause_iff.1 h).unique (isClause_iff.1 h')

theorem IsClause.standsIn {as : List AssignmentTokens} {ts : List Token} (h : IsClause as ts) :
    ∀ a ∈ as, a.StandsIn ts := by
  intro a ha
  cases h with
  | bare assignments => exact assignments.standsIn a ha
  | @keyword us _ tok _ _ assignments =>
      obtain ⟨before, after, rfl, hvalue⟩ := assignments.standsIn a ha
      exact ⟨tok :: before, after, rfl, hvalue⟩

/-! Reading assignments -/

/-- An assignment was read from tokens: its target is the first of them, in its place, and its tree
flattens to those of the value. -/
structure Assignment.Fits (a : Assignment) (tokens : AssignmentTokens) : Prop where
  target : a.target = tokens.target.placed
  value : Fit a.value.flatten tokens.value

namespace Reader

theorem run_assignment_cons (name : Token) (after : List Token) :
    assignment.run (name :: after) =
      if name.kind ≠ .ident then .error ⟨.expected .ident, name :: after⟩
      else
        match after with
        | [] => .error ⟨.expected .equals, []⟩
        | sign :: right =>
            if sign.kind ≠ .equals then .error ⟨.expected .equals, sign :: right⟩
            else (do
              let value ← expr.run right
              .ok (⟨name.placed, value.1⟩, value.2)) := by
  unfold run assignment
  simp only
  split
  · rfl
  · cases after with
    | nil => rfl
    | cons sign right =>
        simp only
        split
        · rfl
        · cases expr right <;> rfl

theorem run_assignment {name sign : Token} (hname : name.kind = .ident)
    (hsign : sign.kind = .equals) (right : List Token) :
    assignment.run (name :: sign :: right) = (do
      let value ← expr.run right
      .ok (⟨name.placed, value.1⟩, value.2)) := by
  rw [run_assignment_cons, if_neg (not_not.2 hname)]
  exact if_neg (not_not.2 hsign)

theorem begin_of_run_assignment {input : List Token} {r : Assignment × List Token}
    (h : assignment.run input = .ok r) :
    ∃ name sign right,
      input = name :: sign :: right ∧ name.kind = .ident ∧ sign.kind = .equals := by
  cases input with
  | nil => cases h
  | cons name after =>
      rw [run_assignment_cons] at h
      split at h
      · cases h
      · rename_i hname
        split at h
        · cases h
        · rename_i sign right
          split at h
          · cases h
          · rename_i hsign
            exact ⟨name, sign, right, rfl, not_not.1 hname, not_not.1 hsign⟩

theorem assignment_sound {input rest : List Token} {a : Assignment}
    (hspelled : ∀ tok ∈ input, tok.Spelled) (h : assignment.run input = .ok (a, rest)) :
    ∃ tokens : AssignmentTokens, input = tokens.all ++ rest ∧ tokens.Valid ∧ a.Fits tokens := by
  obtain ⟨name, sign, right, rfl, hname, hsign⟩ := begin_of_run_assignment h
  rw [run_assignment hname hsign] at h
  obtain ⟨⟨value, left⟩, hvalue, h⟩ := Outcome.bind_eq_ok_iff.1 h
  cases h
  rw [List.forall_mem_cons, List.forall_mem_cons] at hspelled
  obtain ⟨taken, rfl, hfit, hnesting⟩ := expr_sound hspelled.2.2 hvalue
  exact ⟨⟨name, sign, taken⟩, rfl, ⟨hname, hsign, isExpr_of_fit hfit hnesting⟩, rfl, hfit⟩

theorem assignment_complete {a : Assignment} {tokens : AssignmentTokens} (hvalid : tokens.Valid)
    (hfits : a.Fits tokens) {rest : List Token} (hrest : ∀ tok ∈ rest.head?, tok.Separates) :
    assignment.run (tokens.target :: tokens.sign :: (tokens.value ++ rest)) = .ok (a, rest) := by
  have hends : (Rule.chain .sum).EndsBefore rest := by
    cases rest with
    | nil => exact Rule.endsBefore_nil _
    | cons tok rest => exact (hrest tok rfl).endsBefore rest
  have hread := expr_complete hfits.value (hvalid.value.nesting_le hfits.value) hends
  obtain ⟨target, value⟩ := a
  obtain rfl := hfits.target
  rw [run_assignment hvalid.ident hvalid.equals, hread]
  rfl

theorem assignments_of_separators {input : List Token} (h : input.dropWhile isSeparator = []) :
    assignments input = .ok [] := by
  rw [assignments]
  split
  · rfl
  · rename_i tok more hmore
    rw [h] at hmore
    cases hmore

theorem assignments_of_assignment {input more : List Token} {tok : Token}
    (h : input.dropWhile isSeparator = tok :: more) :
    assignments input = (do
      let first ← assignment.run (tok :: more)
      match first.2 with
      | [] => .ok [first.1]
      | sep :: after =>
          if isSeparator sep then (do
            let others ← assignments (sep :: after)
            .ok (first.1 :: others))
          else .error ⟨.afterAssignment, sep :: after⟩) := by
  rw [assignments]
  split
  · rename_i hnil
    rw [h] at hnil
    cases hnil
  · rename_i tok' more' hmore
    rw [h] at hmore
    cases hmore
    rw [run]
    cases assignment (tok :: more) with
    | error stuck => rfl
    | ok first =>
        obtain ⟨value, rest, shorter⟩ := first
        cases rest with
        | nil => rfl
        | cons sep after =>
            change (if isSeparator sep then _ else _) = (if isSeparator sep then _ else _)
            split
            · cases assignments (sep :: after) <;> rfl
            · rfl

/-- The assignments that are read are those of the grammar, in order. -/
theorem assignments_sound {input : List Token} (hspelled : ∀ tok ∈ input, tok.Spelled)
    {as : List Assignment} (h : assignments input = .ok as) :
    ∃ all, SeparatedAssignments all input ∧ List.Forall₂ Assignment.Fits as all := by
  -- an assignment takes three tokens at least, so fewer are left to the ones after it
  induction hlength : input.length using Nat.strongRecOn generalizing input as with
  | _ n ih =>
      cases hdrop : input.dropWhile isSeparator with
      | nil =>
          rw [assignments_of_separators hdrop] at h
          cases h
          refine ⟨[], .empty ?_, .nil⟩
          intro tok htok
          exact isSeparator_iff.1 (List.dropWhile_eq_nil_iff.1 hdrop tok htok)
      | cons tok more =>
          rw [assignments_of_assignment hdrop] at h
          obtain ⟨⟨first, rest⟩, hfirst, h⟩ := Outcome.bind_eq_ok_iff.1 h
          have hinput : input = input.takeWhile isSeparator ++ (tok :: more) := by
            rw [← hdrop, List.takeWhile_append_dropWhile]
          have hseps : ∀ sep ∈ input.takeWhile isSeparator, sep.Separates := by
            intro sep hsep
            exact isSeparator_iff.1 (List.mem_takeWhile_imp hsep)
          obtain ⟨tokens, htokens, hvalid, hfits⟩ :=
            assignment_sound (spelled_rest hspelled hinput) hfirst
          rw [htokens] at hinput
          cases rest with
          | nil =>
              cases h
              refine ⟨[tokens], ?_, .cons hfits .nil⟩
              rw [hinput]
              exact .first hseps hvalid (.done (by simp))
          | cons sep after =>
              simp only at h
              split at h
              · rename_i hsep
                obtain ⟨others, hothers, h⟩ := Outcome.bind_eq_ok_iff.1 h
                cases h
                have hlt : (sep :: after).length < n := by
                  rw [← hlength, hinput]
                  simp only [AssignmentTokens.all, List.length_append, List.length_cons]
                  omega
                have hafter : ∀ tok ∈ sep :: after, tok.Spelled :=
                  spelled_rest hspelled (hinput.trans (List.append_assoc _ _ _).symm)
                obtain ⟨all, hall, hfits'⟩ := ih _ hlt hafter hothers rfl
                refine ⟨tokens :: all, ?_, .cons hfits hfits'⟩
                rw [hinput]
                exact .first hseps hvalid (hall.more (isSeparator_iff.1 hsep))
              · cases h

/-- Whatever the grammar takes for assignments is read as such. -/
theorem assignments_complete {all : List AssignmentTokens} {input : List Token}
    (hall : SeparatedAssignments all input) {as : List Assignment}
    (hfits : List.Forall₂ Assignment.Fits as all) : assignments input = .ok as := by
  induction all generalizing input as with
  | nil =>
      obtain rfl := List.forall₂_nil_right_iff.1 hfits
      cases hall with
      | empty separates =>
          refine assignments_of_separators (List.dropWhile_eq_nil_iff.2 ?_)
          intro tok htok
          exact isSeparator_iff.2 (separates tok htok)
  | cons tokens all ih =>
      obtain ⟨a, others, hfirst, hothers, rfl⟩ := List.forall₂_cons_right_iff.1 hfits
      cases hall with
      | @first seps rest _ _ separates valid more =>
          have hread := assignment_complete valid hfirst more.head_separates
          have hmore := ih more.separated hothers
          rw [assignments_of_assignment (valid.dropWhile_separators separates rest), hread]
          cases rest with
          | nil =>
              rw [assignments_of_separators rfl] at hmore
              cases hmore
              rfl
          | cons sep after =>
              change (if isSeparator sep then _ else _) = _
              rw [if_pos (isSeparator_iff.2 (more.head_separates sep rfl)), hmore]
              rfl

theorem assignments_eq_ok_iff {input : List Token} (hspelled : ∀ tok ∈ input, tok.Spelled)
    {as : List Assignment} : assignments input = .ok as ↔
      ∃ all, SeparatedAssignments all input ∧ List.Forall₂ Assignment.Fits as all :=
  ⟨assignments_sound hspelled, fun ⟨_, hall, hfits⟩ => assignments_complete hall hfits⟩

theorem dropWhere_suffix (ts : List Token) : dropWhere ts <:+ ts := by
  cases ts with
  | nil => exact List.suffix_refl []
  | cons tok after =>
      rw [dropWhere]
      split
      · exact List.suffix_cons tok after
      · exact List.suffix_refl _

end Reader

/-! Sources -/

theorem SeparatedAssignments.exists_fits {all : List AssignmentTokens} {ts : List Token}
    (h : SeparatedAssignments all ts) (hspelled : ∀ tok ∈ ts, tok.Spelled) :
    ∃ as, List.Forall₂ Assignment.Fits as all := by
  induction all generalizing ts with
  | nil => exact ⟨[], .nil⟩
  | cons tokens all ih =>
      cases h with
      | @first seps rest _ _ separates valid more =>
          rw [List.forall_mem_append, List.forall_mem_append] at hspelled
          obtain ⟨_, hall, hrest⟩ := hspelled
          have hvalue : ∀ tok ∈ tokens.value, tok.Spelled := by
            intro tok htok
            exact hall tok (List.mem_cons_of_mem _ (List.mem_cons_of_mem _ htok))
          obtain ⟨value, hfit, _⟩ := valid.value.exists_tree hvalue
          obtain ⟨others, hothers⟩ := ih more.separated hrest
          exact ⟨⟨tokens.target.placed, value⟩ :: others, .cons ⟨rfl, hfit⟩ hothers⟩

theorem spelled_dropWhere {source : String} {s : Scanned} (h : scan source = .ok s) :
    ∀ tok ∈ Reader.dropWhere (clauseTokens s.tokens), tok.Spelled := by
  intro tok htok
  have hcounts : tok ∈ clauseTokens s.tokens := (Reader.dropWhere_suffix _).mem htok
  obtain ⟨⟨tok', i⟩, hmem, rfl⟩ := List.mem_map.1 hcounts
  exact spelled_of_scan h tok' (List.fst_mem_of_mem_zipIdx (List.mem_filter.1 hmem).1)

theorem parseAssignments_eq_ok_iff {source : String} {s : Scanned} (h : scan source = .ok s)
    {as : List Assignment} :
    parseAssignments source = .ok as ↔
      ∃ all, IsClause all (clauseTokens s.tokens) ∧ List.Forall₂ Assignment.Fits as all := by
  have hparse : parseAssignments source = .ok as ↔ s.assignments = .ok as := by
    rw [parseAssignments, scanSource, h]
    exact Outcome.mapError_eq_ok_iff
  rw [hparse, Scanned.assignments, significant_eq_clauseTokens,
    Reader.assignments_eq_ok_iff (spelled_dropWhere h)]
  simp only [isClause_iff]

theorem parseAssignments_isOk_iff {source : String} {s : Scanned} (h : scan source = .ok s) :
    (∃ as, parseAssignments source = .ok as) ↔
      ∃ all, IsClause all (clauseTokens s.tokens) := by
  constructor
  · rintro ⟨as, has⟩
    obtain ⟨all, hall, _⟩ := (parseAssignments_eq_ok_iff h).1 has
    exact ⟨all, hall⟩
  · rintro ⟨all, hall⟩
    obtain ⟨as, has⟩ := (isClause_iff.1 hall).exists_fits (spelled_dropWhere h)
    exact ⟨as, (parseAssignments_eq_ok_iff h).2 ⟨all, hall, has⟩⟩

/-- A source is accepted as a where clause exactly if the grammar divides its tokens, without the
line feeds inside parentheses, into assignments. There is one way to divide them only. What is
returned has one assignment for each, in order: its target is the first token, and its tree is the
only one that flattens to the tokens up to the next separator or the end. -/
theorem parseAssignments_accepts_grammar {source : String} {s : Scanned}
    (h : scan source = .ok s) :
    ((∃ as, parseAssignments source = .ok as) ↔
      ∃ all, IsClause all (clauseTokens s.tokens)) ∧
    ∀ as, parseAssignments source = .ok as →
      ∃ all, IsClause all (clauseTokens s.tokens) ∧ List.Forall₂ Assignment.Fits as all ∧
        (∀ tokens ∈ all, tokens.StandsIn (clauseTokens s.tokens)) ∧
        (∀ all', IsClause all' (clauseTokens s.tokens) → all' = all) ∧
        ∀ as', List.Forall₂ Assignment.Fits as' all → as' = as := by
  refine ⟨parseAssignments_isOk_iff h, ?_⟩
  intro as has
  obtain ⟨all, hall, hfits⟩ := (parseAssignments_eq_ok_iff h).1 has
  refine ⟨all, hall, hfits, hall.standsIn, fun _ => hall.unique, ?_⟩
  -- other trees for the same tokens would be read from the same source
  intro as' hfits'
  have has' := (parseAssignments_eq_ok_iff h).2 ⟨all, hall, hfits'⟩
  rw [has] at has'
  cases has'
  rfl

theorem parseAssignments_accepts_grammar_where :
    ∃ s as, scan "where u = (t\n)\nv = -u" = .ok s ∧
      parseAssignments "where u = (t\n)\nv = -u" = .ok as := by
  have h : scan "where u = (t\n)\nv = -u" = .ok
      ⟨[⟨.ident, "where", ⟨0, 1, 1⟩⟩, ⟨.ident, "u", ⟨6, 1, 7⟩⟩, ⟨.equals, "=", ⟨8, 1, 9⟩⟩,
        ⟨.lparen, "(", ⟨10, 1, 11⟩⟩, ⟨.ident, "t", ⟨11, 1, 12⟩⟩, ⟨.newline, "\n", ⟨12, 1, 13⟩⟩,
        ⟨.rparen, ")", ⟨13, 2, 1⟩⟩, ⟨.newline, "\n", ⟨14, 2, 2⟩⟩, ⟨.ident, "v", ⟨15, 3, 1⟩⟩,
        ⟨.equals, "=", ⟨17, 3, 3⟩⟩, ⟨.minus, "-", ⟨19, 3, 5⟩⟩, ⟨.ident, "u", ⟨20, 3, 6⟩⟩],
        ⟨21, 3, 7⟩⟩ := by
    decide +kernel
  have hgroup : Rule.Derives .primary (⟨.lparen, "(", ⟨10, 1, 11⟩⟩ ::
      ([⟨.ident, "t", ⟨11, 1, 12⟩⟩] ++ [⟨.rparen, ")", ⟨13, 2, 1⟩⟩])) :=
    .group rfl (.operand (.operand (.unsigned (.operand (.plain (.name rfl)))))) rfl
  have hfirst : AssignmentTokens.Valid ⟨⟨.ident, "u", ⟨6, 1, 7⟩⟩, ⟨.equals, "=", ⟨8, 1, 9⟩⟩, _⟩ :=
    ⟨rfl, rfl, .operand (.operand (.unsigned (.operand (.plain hgroup)))), by decide⟩
  have hsecond : AssignmentTokens.Valid ⟨⟨.ident, "v", ⟨15, 3, 1⟩⟩, ⟨.equals, "=", ⟨17, 3, 3⟩⟩,
      [⟨.minus, "-", ⟨19, 3, 5⟩⟩, ⟨.ident, "u", ⟨20, 3, 6⟩⟩]⟩ :=
    ⟨rfl, rfl, .operand (.operand (.negated rfl (.operand (.plain (.name rfl))))), by decide⟩
  have hnone : ∀ tok ∈ ([] : List Token), tok.Separates := by
    simp
  have hnewline : ∀ tok ∈ [Token.mk .newline "\n" ⟨14, 2, 2⟩], tok.Separates := by
    decide
  have hall := SeparatedAssignments.first hnone hfirst
    (.more hnewline (by simp) hsecond (.done hnone))
  have hclause : IsClause _ (⟨.ident, "where", ⟨0, 1, 1⟩⟩ :: _) := .keyword rfl rfl hall
  obtain ⟨as, has⟩ := (parseAssignments_accepts_grammar h).1.2 ⟨_, hclause⟩
  exact ⟨_, as, h, has⟩

end FlightCurve

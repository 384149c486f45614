import FlightCurve.Proofs.FirstFault.Clause
import FlightCurve.Proofs.Offences

/-!
Reading renamed tokens. Tokens are told apart by their kinds, and by their texts only in the header
and in the word before the assignments; so tokens of which only other names are spelled anew are
read in the same way, and yield the trees in which these names are renamed.
-/

namespace FlightCurve

/-- The text of a token when some words are renamed. -/
def Token.renamedText (name : String → String) (words : List (Placed String)) (tok : Token) :
    String :=
  if tok.kind = .ident ∧ tok.placed ∈ words then name tok.text else tok.text

/-- How a source is written anew: which of its words are renamed, what a name becomes, and where
what stood at a place stands then. -/
structure Renaming where
  words : List (Placed String)
  name : String → String
  place : Position → Position

namespace Renaming

def word (R : Renaming) (w : Placed String) : Placed String :=
  ⟨if w ∈ R.words then R.name w.value else w.value, R.place w.position⟩

def token (R : Renaming) (tok : Token) : Token :=
  ⟨tok.kind, tok.renamedText R.name R.words, R.place tok.position⟩

theorem placed_token (R : Renaming) {tok : Token} (h : tok.kind = .ident) :
    (R.token tok).placed = R.word tok.placed := by
  rw [token, Token.placed, Token.renamedText, word]
  by_cases hword : tok.placed ∈ R.words
  · rw [if_pos ⟨h, hword⟩, if_pos hword]
    rfl
  · rw [if_neg fun hboth => hword hboth.2, if_neg hword]
    rfl

theorem text_of_kind_ne (R : Renaming) {tok : Token} (h : tok.kind ≠ .ident) :
    tok.renamedText R.name R.words = tok.text :=
  if_neg fun hword => h hword.1

theorem text_of_not_mem (R : Renaming) {tok : Token} (h : tok.placed ∉ R.words) :
    tok.renamedText R.name R.words = tok.text :=
  if_neg fun hword => h hword.2

theorem kinds_map_token (R : Renaming) (ts : List Token) :
    (ts.map R.token).map Token.kind = ts.map Token.kind := by
  rw [List.map_map]
  rfl

end Renaming

variable (R : Renaming)

/-! Trees -/

mutual

/-- The tree of the renamed tokens. -/
def Tree.renamed {r : Rule} : Tree r → Tree r
  | .chain first rest => .chain first.renamed rest.renamed
  | .signed negated operand => .signed negated operand.renamed
  | .callOne name argument => .callOne (R.word name) argument.renamed
  | .callTwo name first second => .callTwo (R.word name) first.renamed second.renamed
  | .plain primary => .plain primary.renamed
  | .group inner => .group inner.renamed
  | .variable name => .variable (R.word name)
  | .number literal => .number ⟨literal.value, R.place literal.position⟩

def Tail.renamed {c : Chain} : Tail c → Tail c
  | .done => .done
  | .step op operand rest => .step ⟨op.value, R.place op.position⟩ operand.renamed rest.renamed

end

theorem Leaf.fits_token {leaf : Leaf} {tok : Token} (h : leaf.Fits tok)
    (hkind : tok.kind ≠ .ident) :
    Leaf.Fits ⟨leaf.kind, leaf.text, leaf.position.map R.place⟩ (R.token tok) where
  kind := h.kind
  text := h.text.trans (R.text_of_kind_ne hkind).symm
  position := by
    intro p hp
    obtain ⟨q, hq, rfl⟩ := Option.map_eq_some_iff.1 hp
    exact congrArg R.place (h.position q hq)

mutual

theorem Tree.fit_renamed {r : Rule} (tree : Tree r) {ts : List Token} (h : Fit tree.flatten ts) :
    Fit (tree.renamed R).flatten (ts.map R.token) := by
  match tree, h with
  | .chain first rest, h =>
      obtain ⟨us, vs, rfl, hus, hvs⟩ := Tree.fit_chain h
      rw [Tree.renamed, Tree.flatten, List.map_append]
      exact List.rel_append (first.fit_renamed hus) (rest.fit_renamed hvs)
  | .signed true operand, h =>
      rw [Tree.flatten] at h
      obtain ⟨sign, us, hsign, hus, rfl⟩ := List.forall₂_cons_left_iff.1 h
      rw [Tree.renamed, Tree.flatten, List.map_cons]
      exact .cons (Leaf.fits_token R hsign (by rw [← hsign.kind]; decide))
        (operand.fit_renamed hus)
  | .signed false operand, h => exact operand.fit_renamed h
  | .callOne name argument, h =>
      obtain ⟨tok, us, rfl, hident, rfl, hus⟩ := Tree.fit_callOne h
      rw [Tree.renamed, Tree.flatten, List.map_cons, ← R.placed_token hident]
      exact .cons (Leaf.fits_placed hident) (argument.fit_renamed hus)
  | .callTwo name first second, h =>
      obtain ⟨tok, us, vs, rfl, hident, rfl, hus, hvs⟩ := Tree.fit_callTwo h
      rw [Tree.renamed, Tree.flatten, List.map_cons, List.map_append, ← R.placed_token hident]
      exact .cons (Leaf.fits_placed hident)
        (List.rel_append (first.fit_renamed hus) (second.fit_renamed hvs))
  | .plain primary, h => exact primary.fit_renamed h
  | .group inner, h =>
      rw [Tree.flatten] at h
      obtain ⟨left, body, hleft, hbody, rfl⟩ := List.forall₂_cons_left_iff.1 h
      obtain ⟨us, vs, rfl, hus, hvs⟩ := fit_append_iff.1 hbody
      obtain ⟨right, ws, hright, hws, rfl⟩ := List.forall₂_cons_left_iff.1 hvs
      obtain rfl := List.forall₂_nil_left_iff.1 hws
      rw [Tree.renamed, Tree.flatten, List.map_cons, List.map_append, List.map_singleton]
      exact .cons (Leaf.fits_token R hleft (by rw [← hleft.kind]; decide))
        (List.rel_append (inner.fit_renamed hus)
          (.cons (Leaf.fits_token R hright (by rw [← hright.kind]; decide)) .nil))
  | .variable name, h =>
      obtain ⟨tok, rfl, hident, rfl⟩ := Tree.fit_variable h
      rw [Tree.renamed, Tree.flatten, ← R.placed_token hident]
      exact .cons (Leaf.fits_placed hident) .nil
  | .number literal, h =>
      rw [Tree.flatten] at h
      obtain ⟨tok, us, htok, hus, rfl⟩ := List.forall₂_cons_left_iff.1 h
      obtain rfl := List.forall₂_nil_left_iff.1 hus
      exact .cons (Leaf.fits_token R htok (by rw [← htok.kind]; exact Kind.noConfusion)) .nil

theorem Tail.fit_renamed {c : Chain} (tail : Tail c) {ts : List Token} (h : Fit tail.flatten ts) :
    Fit (tail.renamed R).flatten (ts.map R.token) := by
  match tail, h with
  | .done, h =>
      obtain rfl := List.forall₂_nil_left_iff.1 h
      exact .nil
  | .step op operand rest, h =>
      rw [Tail.flatten] at h
      obtain ⟨tok, more, htok, hmore, rfl⟩ := List.forall₂_cons_left_iff.1 h
      obtain ⟨us, vs, rfl, hus, hvs⟩ := fit_append_iff.1 hmore
      rw [Tail.renamed, Tail.flatten, List.map_cons, List.map_append]
      refine .cons (Leaf.fits_token R htok ?_)
        (List.rel_append (operand.fit_renamed hus) (rest.fit_renamed hvs))
      rw [← htok.kind]
      exact c.opKind_ne_ident op.value

end

/-! Assignments -/

def Assignment.renamed (a : Assignment) : Assignment := ⟨R.word a.target, a.value.renamed R⟩

def AssignmentTokens.renamed (a : AssignmentTokens) : AssignmentTokens :=
  ⟨R.token a.target, R.token a.sign, a.value.map R.token⟩

theorem AssignmentTokens.all_renamed (a : AssignmentTokens) :
    (a.renamed R).all = a.all.map R.token := rfl

theorem AssignmentTokens.Valid.renamed {a : AssignmentTokens} (h : a.Valid) :
    (a.renamed R).Valid :=
  ⟨h.ident, h.equals, h.value.of_kinds (R.kinds_map_token a.value)⟩

theorem Assignment.Fits.renamed {a : Assignment} {tokens : AssignmentTokens}
    (h : a.Fits tokens) (hvalid : tokens.Valid) : (a.renamed R).Fits (tokens.renamed R) where
  target := by
    rw [Assignment.renamed, h.target]
    exact (R.placed_token hvalid.ident).symm
  value := a.value.fit_renamed R h.value

theorem separates_map_token {seps : List Token} (h : ∀ tok ∈ seps, tok.Separates) :
    ∀ tok ∈ seps.map R.token, tok.Separates :=
  separates_of_kinds h (R.kinds_map_token seps)

theorem MoreAssignments.renamed {all : List AssignmentTokens} {ts : List Token}
    (h : MoreAssignments all ts) :
    MoreAssignments (all.map (·.renamed R)) (ts.map R.token) := by
  induction h with
  | done separates => exact .done (separates_map_token R separates)
  | @more seps ts a as separates nonempty valid _ ih =>
      rw [List.map_append, List.map_append, ← a.all_renamed]
      exact .more (separates_map_token R separates) (by simpa using nonempty) (valid.renamed R) ih

theorem SeparatedAssignments.renamed {all : List AssignmentTokens} {ts : List Token}
    (h : SeparatedAssignments all ts) :
    SeparatedAssignments (all.map (·.renamed R)) (ts.map R.token) := by
  cases h with
  | empty separates => exact .empty (separates_map_token R separates)
  | @first seps ts a as separates valid rest =>
      rw [List.map_append, List.map_append, ← a.all_renamed]
      exact .first (separates_map_token R separates) (valid.renamed R) (rest.renamed R)

theorem SeparatedAssignments.fits_renamed {all : List AssignmentTokens} {ts : List Token}
    (h : SeparatedAssignments all ts) {as : List Assignment}
    (hfits : List.Forall₂ Assignment.Fits as all) :
    List.Forall₂ Assignment.Fits (as.map (·.renamed R)) (all.map (·.renamed R)) := by
  induction all generalizing ts as with
  | nil =>
      obtain rfl := List.forall₂_nil_right_iff.1 hfits
      exact .nil
  | cons tokens all ih =>
      obtain ⟨a, others, hfirst, hothers, rfl⟩ := List.forall₂_cons_right_iff.1 hfits
      cases h with
      | first _ valid rest => exact .cons (hfirst.renamed R valid) (ih rest.separated hothers)

/-! Tokens that count -/

theorem significant_map_token (n : Nat) (ts : List Token) :
    significant n (ts.map R.token) = (significant n ts).map R.token := by
  induction ts generalizing n with
  | nil => rfl
  | cons tok ts ih =>
      rw [List.map_cons, significant_cons, significant_cons]
      change (if tok.kind = .newline ∧ 0 < n then _ else R.token tok :: significant
        (tok.openAfter n) _) = _
      rw [ih, ih]
      split <;> rfl

theorem withoutNewlines_map_token (ts : List Token) :
    withoutNewlines (ts.map R.token) = (withoutNewlines ts).map R.token := by
  rw [withoutNewlines, List.filter_map]
  rfl

/-- The word before the assignments is none of theirs, so it stays as it is. -/
theorem IsClause.renamed {all : List AssignmentTokens} {ts : List Token} (h : IsClause all ts)
    (hwords : ∀ w ∈ R.words, w ∈ identifiers (Reader.dropWhere ts))
    (hnodup : (identifiers ts).Nodup) : IsClause (all.map (·.renamed R)) (ts.map R.token) := by
  cases h with
  | bare assignments => exact .bare (assignments.renamed R)
  | @keyword us _ tok ident keyword assignments =>
      have hdrop : Reader.dropWhere (tok :: us) = us :=
        if_pos ⟨ident, keyword, assignments.find?_ne_equals⟩
      have hword : tok.placed ∉ R.words := by
        intro hmem
        have hlater := hwords _ hmem
        rw [hdrop] at hlater
        rw [identifiers_cons_of_ident ident, List.nodup_cons] at hnodup
        exact hnodup.1 hlater
      exact .keyword ident ((R.text_of_not_mem hword).trans keyword) (assignments.renamed R)

/-- The words of a header are none of the expression, so they stay as they are. -/
theorem IsCurveExpr.renamed {axis : Option String} {ts body : List Token}
    (h : IsCurveExpr axis ts body) (hwords : ∀ w ∈ R.words, w ∈ identifiers body)
    (hnodup : (identifiers ts).Nodup) : IsCurveExpr axis (ts.map R.token) (body.map R.token) := by
  obtain ⟨⟨header, rfl, hcases⟩, hbody⟩ := h
  refine ⟨⟨header.map R.token, List.map_append, ?_⟩, hbody.of_kinds (R.kinds_map_token body)⟩
  rcases hcases with rfl | hheader
  · exact .inl rfl
  · refine .inr (hheader.of_lexemes ?_)
    rw [List.map_map]
    refine List.map_congr_left fun tok htok => ?_
    by_cases hident : tok.kind = .ident
    · have hword : tok.placed ∉ R.words := by
        intro hmem
        rw [identifiers_append] at hnodup
        have hfirst : tok.placed ∈ identifiers header :=
          List.mem_map_of_mem (List.mem_filter.2 ⟨htok, by simp [hident]⟩)
        exact (List.nodup_append.1 hnodup).2.2 _ hfirst _ (hwords _ hmem) rfl
      exact congrArg (Prod.mk tok.kind) (R.text_of_not_mem hword)
    · exact congrArg (Prod.mk tok.kind) (R.text_of_kind_ne hident)

/-! Sources -/

section Sources

variable {source source' : String} {s s' : Scanned}

/-- No two identifiers of a source stand at the same place. -/
theorem nodup_identifiers (h : scan source = .ok s) {ts : List Token}
    (hts : ts.Sublist s.tokens) : (identifiers ts).Nodup := by
  refine (pairwise_identifiers h hts).imp ?_
  rintro a _ hbefore rfl
  exact Position.not_before rfl rfl hbefore

theorem Scanned.States.nodup (h : scan source = .ok s) {occurrences : List Occurrence}
    (hstates : s.States occurrences) : (occurrences.map Occurrence.word).Nodup := by
  obtain ⟨ts, hts, hwords⟩ := hstates
  exact hwords ▸ nodup_identifiers h hts

/-- A clause of which targets and variables are renamed is read as before, up to these names. -/
theorem parseAssignments_renamed (h : scan source = .ok s) (h' : scan source' = .ok s')
    (htokens : s'.tokens = s.tokens.map R.token) {as : List Assignment}
    (has : parseAssignments source = .ok as)
    (hwords : ∀ w ∈ R.words, w ∈ (Occurrence.ofClause as).map Occurrence.word) :
    parseAssignments source' = .ok (as.map (·.renamed R)) := by
  obtain ⟨all, hall, hfits⟩ := (parseAssignments_eq_ok_iff h).1 has
  rw [← identifiers_of_parseAssignments h has] at hwords
  refine (parseAssignments_eq_ok_iff h').2 ⟨all.map (·.renamed R), ?_, ?_⟩
  · rw [htokens, ← significant_eq_clauseTokens, significant_map_token, significant_eq_clauseTokens]
    exact hall.renamed R hwords (nodup_identifiers h (clauseTokens_sublist s.tokens))
  · exact (isClause_iff.1 hall).fits_renamed R hfits

/-- A curve expression of which variables are renamed is read as before, up to these names. -/
theorem parseExpr_renamed (h : scan source = .ok s) (h' : scan source' = .ok s')
    (htokens : s'.tokens = s.tokens.map R.token) {axis : Option String} {e : Expr}
    (he : parseExpr source axis = .ok e)
    (hwords : ∀ w ∈ R.words, w ∈ (e.occurrences []).map Occurrence.word) :
    parseExpr source' axis = .ok (e.renamed R) := by
  obtain ⟨body, hbody, hfit⟩ := (parseExpr_eq_ok_iff h).1 he
  rw [← e.identifiers_of_fit [] hfit] at hwords
  refine (parseExpr_eq_ok_iff h').2 ⟨body.map R.token, ?_, e.fit_renamed R hfit⟩
  rw [htokens, withoutNewlines_map_token]
  exact hbody.renamed R hwords (nodup_identifiers h List.filter_sublist)

end Sources

end FlightCurve

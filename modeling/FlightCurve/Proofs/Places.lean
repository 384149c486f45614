import FlightCurve.Proofs.Reading

/-!
Trees and tokens without their places. What the grammar derives depends on what the tokens say and
not on where they stand, and so does the tree that flattens to them, but for its places.
-/

namespace FlightCurve

def Placed.unplaced {α : Type} (p : Placed α) : Placed α := ⟨p.value, .start⟩

def Token.unplaced (tok : Token) : Token := { tok with position := .start }

def Leaf.unplaced (leaf : Leaf) : Leaf :=
  { leaf with position := leaf.position.map fun _ => .start }

mutual

/-- The tree with all places forgotten. -/
def Tree.unplaced {r : Rule} : Tree r → Tree r
  | .chain first rest => .chain first.unplaced rest.unplaced
  | .signed negated operand => .signed negated operand.unplaced
  | .callOne name argument => .callOne name.unplaced argument.unplaced
  | .callTwo name first second => .callTwo name.unplaced first.unplaced second.unplaced
  | .plain primary => .plain primary.unplaced
  | .group inner => .group inner.unplaced
  | .variable name => .variable name.unplaced
  | .number literal => .number literal.unplaced

def Tail.unplaced {c : Chain} : Tail c → Tail c
  | .done => .done
  | .step op operand rest => .step op.unplaced operand.unplaced rest.unplaced

end

mutual

theorem Tree.flatten_unplaced {r : Rule} (tree : Tree r) :
    tree.unplaced.flatten = tree.flatten.map Leaf.unplaced := by
  match tree with
  | .chain first rest =>
      rw [Tree.unplaced, Tree.flatten, Tree.flatten, first.flatten_unplaced, rest.flatten_unplaced,
        List.map_append]
  | .signed true operand =>
      rw [Tree.unplaced, Tree.flatten, Tree.flatten, operand.flatten_unplaced]
      rfl
  | .signed false operand =>
      rw [Tree.unplaced, Tree.flatten, Tree.flatten, operand.flatten_unplaced]
  | .callOne name argument =>
      rw [Tree.unplaced, Tree.flatten, Tree.flatten, argument.flatten_unplaced]
      rfl
  | .callTwo name first second =>
      rw [Tree.unplaced, Tree.flatten, Tree.flatten, first.flatten_unplaced,
        second.flatten_unplaced, List.map_cons, List.map_append]
      rfl
  | .plain primary => rw [Tree.unplaced, Tree.flatten, Tree.flatten, primary.flatten_unplaced]
  | .group inner =>
      rw [Tree.unplaced, Tree.flatten, Tree.flatten, inner.flatten_unplaced, List.map_cons,
        List.map_append]
      rfl
  | .variable name => rfl
  | .number literal => rfl

theorem Tail.flatten_unplaced {c : Chain} (tail : Tail c) :
    tail.unplaced.flatten = tail.flatten.map Leaf.unplaced := by
  match tail with
  | .done => rfl
  | .step op operand rest =>
      rw [Tail.unplaced, Tail.flatten, Tail.flatten, operand.flatten_unplaced,
        rest.flatten_unplaced, List.map_cons, List.map_append]
      rfl

end

theorem Fit.unplaced {leaves : List Leaf} {ts : List Token} (h : Fit leaves ts) :
    Fit (leaves.map Leaf.unplaced) (ts.map Token.unplaced) := by
  rw [Fit, List.forall₂_map_left_iff, List.forall₂_map_right_iff]
  refine h.imp fun leaf tok hfits => ⟨hfits.kind, hfits.text, ?_⟩
  intro p hp
  obtain ⟨_, _, rfl⟩ := Option.map_eq_some_iff.1 hp
  rfl

theorem Tree.fit_unplaced {r : Rule} {tree : Tree r} {ts : List Token}
    (h : Fit tree.flatten ts) : Fit tree.unplaced.flatten (ts.map Token.unplaced) := by
  rw [tree.flatten_unplaced]
  exact h.unplaced

/-- Tokens that say the same are the same without their places. -/
theorem map_unplaced_of_lexemes {ts us : List Token}
    (h : ts.map Token.lexeme = us.map Token.lexeme) :
    ts.map Token.unplaced = us.map Token.unplaced := by
  have hunplaced : ∀ tok : Token, tok.unplaced = ⟨tok.lexeme.1, tok.lexeme.2, .start⟩ :=
    fun _ => rfl
  have hmap : ∀ vs : List Token, vs.map Token.unplaced =
      (vs.map Token.lexeme).map fun l => ⟨l.1, l.2, .start⟩ := by
    intro vs
    rw [List.map_map]
    exact List.map_congr_left fun tok _ => hunplaced tok
  rw [hmap, hmap, h]

/-! Derivations do not depend on places -/

theorem map_kind_of_lexemes {ts us : List Token} (h : ts.map Token.lexeme = us.map Token.lexeme) :
    ts.map Token.kind = us.map Token.kind := by
  have hkinds : ∀ vs : List Token, vs.map Token.kind = (vs.map Token.lexeme).map Prod.fst := by
    intro vs
    rw [List.map_map]
    rfl
  rw [hkinds, hkinds, h]

theorem Rule.Derives.of_kinds {r : Rule} {ts us : List Token} (h : r.Derives ts)
    (hkinds : us.map Token.kind = ts.map Token.kind) : r.Derives us := by
  induction h generalizing us with
  | operand _ ih => exact .operand (ih hkinds)
  | operator _ between _ ihFirst ihRest =>
      rw [List.map_append, List.map_cons] at hkinds
      obtain ⟨first, more, rfl, hfirst, hmore⟩ := List.map_eq_append_iff.1 hkinds
      obtain ⟨tok, rest, rfl, htok, hrest⟩ := List.map_eq_cons_iff.1 hmore
      exact .operator (ihFirst hfirst) (htok ▸ between) (ihRest hrest)
  | unsigned _ ih => exact .unsigned (ih hkinds)
  | negated minus _ ih =>
      obtain ⟨sign, rest, rfl, hsign, hrest⟩ := List.map_eq_cons_iff.1 hkinds
      exact .negated (hsign.trans minus) (ih hrest)
  | callTwo ident _ _ ihFirst ihSecond =>
      obtain ⟨name, args, rfl, hname, hargs⟩ := List.map_eq_cons_iff.1 hkinds
      rw [List.map_append] at hargs
      obtain ⟨first, second, rfl, hfirst, hsecond⟩ := List.map_eq_append_iff.1 hargs
      exact .callTwo (hname.trans ident) (ihFirst hfirst) (ihSecond hsecond)
  | callOne ident _ ih =>
      obtain ⟨name, rest, rfl, hname, hrest⟩ := List.map_eq_cons_iff.1 hkinds
      exact .callOne (hname.trans ident) (ih hrest)
  | plain _ ih => exact .plain (ih hkinds)
  | group lparen _ rparen ih =>
      obtain ⟨left, body, rfl, hleft, hbody⟩ := List.map_eq_cons_iff.1 hkinds
      rw [List.map_append] at hbody
      obtain ⟨inner, last, rfl, hinner, hlast⟩ := List.map_eq_append_iff.1 hbody
      obtain ⟨right, rest, rfl, hright, hrest⟩ := List.map_eq_cons_iff.1 hlast
      obtain rfl := List.map_eq_nil_iff.1 hrest
      exact .group (hleft.trans lparen) (ih hinner) (hright.trans rparen)
  | name ident =>
      obtain ⟨name, rest, rfl, hname, hrest⟩ := List.map_eq_cons_iff.1 hkinds
      obtain rfl := List.map_eq_nil_iff.1 hrest
      exact .name (hname.trans ident)
  | literal number =>
      obtain ⟨literal, rest, rfl, hliteral, hrest⟩ := List.map_eq_cons_iff.1 hkinds
      obtain rfl := List.map_eq_nil_iff.1 hrest
      exact .literal (hliteral.trans number)

theorem mostOpen_of_kinds {ts us : List Token} (hkinds : us.map Token.kind = ts.map Token.kind)
    (n : Nat) : mostOpen n us = mostOpen n ts := by
  induction ts generalizing us n with
  | nil =>
      obtain rfl := List.map_eq_nil_iff.1 hkinds
      rfl
  | cons tok ts ih =>
      obtain ⟨tok', us, rfl, htok, hus⟩ := List.map_eq_cons_iff.1 hkinds
      rw [mostOpen, mostOpen, Token.openAfter, Token.openAfter, htok]
      rw [ih hus]

theorem IsExpr.of_kinds {ts us : List Token} (h : IsExpr ts)
    (hkinds : us.map Token.kind = ts.map Token.kind) : IsExpr us where
  derives := h.derives.of_kinds hkinds
  nesting := by
    rw [mostOpen_of_kinds hkinds]
    exact h.nesting

theorem IsHeader.of_lexemes {axis : Option String} {ts us : List Token} (h : IsHeader axis ts)
    (hlexemes : us.map Token.lexeme = ts.map Token.lexeme) : IsHeader axis us := by
  cases h with
  | mk ident named lparen word isParameter rparen equals =>
      simp only [List.map_cons, List.map_nil, List.map_eq_cons_iff, List.map_eq_nil_iff] at hlexemes
      obtain ⟨name, _, rfl, hname, left, _, rfl, hleft, parameter, _, rfl, hparameter, right, _,
        rfl, hright, sign, _, rfl, hsign, rfl⟩ := hlexemes
      simp only [Token.lexeme, Prod.mk.injEq] at hname hleft hparameter hright hsign
      refine .mk (hname.1.trans ident) ?_ (hleft.1.trans lparen) (hparameter.1.trans word)
        (hparameter.2.trans isParameter) (hright.1.trans rparen) (hsign.1.trans equals)
      intro a ha
      exact hname.2.trans (named a ha)

theorem IsCurveExpr.of_lexemes {axis : Option String} {ts us body : List Token}
    (h : IsCurveExpr axis ts body) (hlexemes : us.map Token.lexeme = ts.map Token.lexeme) :
    ∃ body', IsCurveExpr axis us body' ∧ body'.map Token.lexeme = body.map Token.lexeme := by
  obtain ⟨⟨header, rfl, hcases⟩, hbody⟩ := h
  rw [List.map_append] at hlexemes
  obtain ⟨header', body', rfl, hheader, hbody'⟩ := List.map_eq_append_iff.1 hlexemes
  refine ⟨body', ⟨⟨header', rfl, ?_⟩, hbody.of_kinds (map_kind_of_lexemes hbody')⟩, hbody'⟩
  rcases hcases with rfl | hcases
  · exact .inl (List.map_eq_nil_iff.1 hheader)
  · exact .inr (hcases.of_lexemes hheader)

end FlightCurve

import FlightCurve.Proofs.CurveExpression
import FlightCurve.Proofs.FirstFault.Clause
import FlightCurve.Proofs.Lossless
import FlightCurve.Proofs.Offences

/-!
Nesting. How high a compiled function is depends on how deep the parentheses of its source nest and
not on how long the source is: between one pair of parentheses and the next, a path from the root
passes at most one sum, product, sign, power and call.

The main statement is that the readers keep the nesting of every tree, and with it the height of
every function, below a fixed bound, and that a text with a parenthesis too deep is a syntax error.
-/

namespace FlightCurve

/-! The height of functions -/

namespace Function

mutual

/-- The number of nodes on a longest path from the root to a leaf. -/
def height : Function → Nat
  | .parameter => 1
  | .ref _ => 1
  | .const _ => 1
  | .sum terms => heightTerms terms + 1
  | .product factors => heightFactors factors + 1
  | .power bases => heightAll bases + 1
  | .neg operand => operand.height + 1
  | .unary _ operand => operand.height + 1
  | .binary _ first second => max first.height second.height + 1

def heightTerms : List (AddOp × Function) → Nat
  | [] => 0
  | (_, term) :: rest => max term.height (heightTerms rest)

def heightFactors : List (MulOp × Function) → Nat
  | [] => 0
  | (_, factor) :: rest => max factor.height (heightFactors rest)

def heightAll : List Function → Nat
  | [] => 0
  | base :: rest => max base.height (heightAll rest)

end

theorem heightTerms_le {k : Nat} {terms : List (AddOp × Function)}
    (h : ∀ p ∈ terms, p.2.height ≤ k) : heightTerms terms ≤ k := by
  induction terms with
  | nil => exact Nat.zero_le k
  | cons p terms ih =>
      rw [List.forall_mem_cons] at h
      exact Nat.max_le.2 ⟨h.1, ih h.2⟩

theorem heightFactors_le {k : Nat} {factors : List (MulOp × Function)}
    (h : ∀ p ∈ factors, p.2.height ≤ k) : heightFactors factors ≤ k := by
  induction factors with
  | nil => exact Nat.zero_le k
  | cons p factors ih =>
      rw [List.forall_mem_cons] at h
      exact Nat.max_le.2 ⟨h.1, ih h.2⟩

theorem heightAll_le {k : Nat} {bases : List Function} (h : ∀ base ∈ bases, base.height ≤ k) :
    heightAll bases ≤ k := by
  induction bases with
  | nil => exact Nat.zero_le k
  | cons base bases ih =>
      rw [List.forall_mem_cons] at h
      exact Nat.max_le.2 ⟨h.1, ih h.2⟩

/-- Joining operands adds one node to a path at most, however many they are. -/
theorem height_ofChain (c : Chain) {k : Nat} {f : Function} {fs : List (c.Op × Function)}
    (hf : f.height ≤ k) (hfs : ∀ p ∈ fs, p.2.height ≤ k) : (ofChain c f fs).height ≤ k + 1 := by
  cases fs with
  | nil => cases c <;> exact Nat.le_succ_of_le hf
  | cons p fs =>
      cases c with
      | sum => exact Nat.succ_le_succ (heightTerms_le (List.forall_mem_cons.2 ⟨hf, hfs⟩))
      | product => exact Nat.succ_le_succ (heightFactors_le (List.forall_mem_cons.2 ⟨hf, hfs⟩))
      | power =>
          refine Nat.succ_le_succ (heightAll_le (List.forall_mem_cons.2 ⟨hf, ?_⟩))
          rw [List.forall_mem_map]
          exact hfs

theorem height_ofName {scope : Scope} {name : Placed String} {f : Function}
    (h : ofName scope name = .ok f) : f.height = 1 := by
  unfold ofName at h
  split at h
  · cases h
    rfl
  · split at h <;> cases h <;> rfl

end Function

/-- The most nodes on a path through a function that a rule makes without parentheses. -/
def Rule.height : Rule → Nat
  | .primary => 1
  | .call => 2
  | .chain .power => 3
  | .signed => 4
  | .chain .product => 5
  | .chain .sum => 6

theorem Chain.height_eq (c : Chain) : (Rule.chain c).height = c.operand.height + 1 := by
  cases c <;> rfl

namespace Function

mutual

/-- Parentheses add five nodes to a path at most. -/
theorem height_ofTree {scope : Scope} {r : Rule} (tree : Tree r) {f : Function}
    (h : ofTree scope tree = .ok f) : f.height ≤ r.height + 5 * tree.nesting := by
  match tree, h with
  | @Tree.chain c first rest, h =>
      simp only [ofTree] at h
      obtain ⟨g, hg, h⟩ := Outcome.bind_eq_ok_iff.1 h
      obtain ⟨gs, hgs, h⟩ := Outcome.bind_eq_ok_iff.1 h
      cases h
      have hfirst := height_ofTree first hg
      have hrest := height_ofTail rest hgs
      rw [Tree.nesting, c.height_eq, Nat.add_right_comm]
      refine height_ofChain c ?_ fun p hp => ?_
      · omega
      · have := hrest p hp
        omega
  | .signed negated operand, h =>
      simp only [ofTree] at h
      obtain ⟨g, hg, h⟩ := Outcome.bind_eq_ok_iff.1 h
      cases h
      have hoperand := height_ofTree operand hg
      rw [Rule.height] at hoperand
      rw [Tree.nesting, Rule.height]
      cases negated with
      | false =>
          change g.height ≤ _
          omega
      | true =>
          change g.height + 1 ≤ _
          omega
  | .callOne name argument, h =>
      simp only [ofTree] at h
      split at h
      · cases h
      · obtain ⟨g, hg, h⟩ := Outcome.bind_eq_ok_iff.1 h
        cases h
        have hargument := height_ofTree argument hg
        rw [Rule.height] at hargument
        rw [Tree.nesting, Rule.height, height]
        omega
  | .callTwo name first second, h =>
      simp only [ofTree] at h
      split at h
      · cases h
      · obtain ⟨g, hg, h⟩ := Outcome.bind_eq_ok_iff.1 h
        obtain ⟨g', hg', h⟩ := Outcome.bind_eq_ok_iff.1 h
        cases h
        have hfirst := height_ofTree first hg
        have hsecond := height_ofTree second hg'
        rw [Rule.height] at hfirst hsecond
        rw [Tree.nesting, Rule.height, height]
        omega
  | .plain primary, h =>
      have hprimary := height_ofTree primary (by simpa only [ofTree] using h)
      rw [Rule.height] at hprimary
      rw [Tree.nesting, Rule.height]
      omega
  | .group inner, h =>
      have hinner := height_ofTree inner (by simpa only [ofTree] using h)
      rw [Rule.height] at hinner
      rw [Tree.nesting, Rule.height]
      omega
  | .variable name, h =>
      rw [height_ofName (by simpa only [ofTree] using h)]
      exact Nat.le_add_right 1 _
  | .number literal, h =>
      simp only [ofTree] at h
      cases h
      exact Nat.le_add_right 1 _

theorem height_ofTail {scope : Scope} {c : Chain} (tail : Tail c) {fs : List (c.Op × Function)}
    (h : ofTail scope tail = .ok fs) :
    ∀ p ∈ fs, p.2.height ≤ c.operand.height + 5 * tail.nesting := by
  match tail, h with
  | .done, h =>
      cases h
      exact List.forall_mem_nil _
  | .step op operand rest, h =>
      simp only [ofTail] at h
      obtain ⟨g, hg, h⟩ := Outcome.bind_eq_ok_iff.1 h
      obtain ⟨gs, hgs, h⟩ := Outcome.bind_eq_ok_iff.1 h
      cases h
      have hoperand := height_ofTree operand hg
      have hrest := height_ofTail rest hgs
      rw [Tail.nesting, List.forall_mem_cons]
      refine ⟨?_, fun p hp => ?_⟩
      · change g.height ≤ _
        omega
      · have := hrest p hp
        omega

end

/-- The functions of assignments are as high as their values allow. -/
theorem height_ofAssignments {scope last : Scope} {as : List Assignment} {fs : List Function}
    {k : Nat} (hnesting : ∀ a ∈ as, a.value.nesting ≤ k)
    (h : ofAssignments scope as = .ok (fs, last)) :
    ∀ f ∈ fs, f.height ≤ (Rule.chain .sum).height + 5 * k := by
  induction as generalizing scope fs with
  | nil =>
      cases h
      exact List.forall_mem_nil _
  | cons a as ih =>
      rw [List.forall_mem_cons] at hnesting
      simp only [ofAssignments] at h
      obtain ⟨⟨f, next⟩, hf, h⟩ := Outcome.bind_eq_ok_iff.1 h
      obtain ⟨⟨gs, last'⟩, hgs, h⟩ := Outcome.bind_eq_ok_iff.1 h
      cases h
      rw [List.forall_mem_cons]
      refine ⟨?_, ih hnesting.2 hgs⟩
      unfold ofAssignment at hf
      split at hf
      · cases hf
      · split at hf
        · cases hf
        · obtain ⟨g, hg, hf⟩ := Outcome.bind_eq_ok_iff.1 hf
          cases hf
          refine Nat.le_trans (height_ofTree a.value hg) (Nat.add_le_add_left ?_ _)
          exact Nat.mul_le_mul_left 5 hnesting.1

end Function

/-! Parentheses of a text -/

namespace Text

/-- How many parentheses are open after a character, when `n` are before it. -/
def parenAfter (n : Nat) (c : Char) : Nat :=
  if c = '(' then n + 1 else if c = ')' then n - 1 else n

/-- How many parentheses are open after a text, when `n` are before it. -/
def parensAfter (n : Nat) (cs : List Char) : Nat := cs.foldl parenAfter n

/-- In the text a parenthesis opens inside as many others as are accepted at most. -/
def NestsTooDeep (cs : List Char) : Prop :=
  ∃ before after, cs = before ++ '(' :: after ∧ maxNesting ≤ parensAfter 0 before

theorem parensAfter_append (n : Nat) (cs ds : List Char) :
    parensAfter n (cs ++ ds) = parensAfter (parensAfter n cs) ds :=
  List.foldl_append

theorem parensAfter_of_not_mem {n : Nat} {cs : List Char} (hleft : '(' ∉ cs) (hright : ')' ∉ cs) :
    parensAfter n cs = n := by
  induction cs with
  | nil => rfl
  | cons c cs ih =>
      rw [List.mem_cons, not_or] at hleft hright
      have hc : parenAfter n c = n := by
        rw [parenAfter, if_neg (Ne.symm hleft.1), if_neg (Ne.symm hright.1)]
      change parensAfter (parenAfter n c) cs = n
      rw [hc, ih hleft.2 hright.2]

end Text

namespace Lexer

open Text

/-- What stands in no number and in no identifier, and is no slash, is a token of its own. -/
theorem eq_single_of_mem {cs : List Char} {kind : Kind} {n : Nat} {c : Char}
    (h : tokenAt? cs = some (kind, n)) (hmem : c ∈ cs.take n) (hnumber : isNumberPart c = false)
    (hident : isIdentRest c = false) (hslash : c ≠ '/') :
    cs.take n = [c] ∧ symbol? c = some kind := by
  unfold tokenAt? at h
  split at h
  · cases h
    have := forall_mem_take_numberLength cs c hmem
    rw [hnumber] at this
    cases this
  · split at h
    · cases h
      have := forall_mem_take_identLength cs c hmem
      rw [hident] at this
      cases this
    · unfold symbolAt? at h
      split at h
      · cases h
        simp [hslash] at hmem
      · rw [Option.map_eq_some_iff] at h
        obtain ⟨symbol, hsymbol, h⟩ := h
        cases h
        rw [List.take_succ_cons, List.take_zero, List.mem_singleton] at hmem
        subst hmem
        exact ⟨rfl, hsymbol⟩
      · cases h

theorem lparen_of_mem {cs : List Char} {kind : Kind} {n : Nat} (h : tokenAt? cs = some (kind, n))
    (hmem : '(' ∈ cs.take n) : cs.take n = ['('] ∧ kind = .lparen := by
  obtain ⟨htake, hsymbol⟩ := eq_single_of_mem h hmem (by decide) (by decide) (by decide)
  cases hsymbol
  exact ⟨htake, rfl⟩

theorem rparen_of_mem {cs : List Char} {kind : Kind} {n : Nat} (h : tokenAt? cs = some (kind, n))
    (hmem : ')' ∈ cs.take n) : cs.take n = [')'] ∧ kind = .rparen := by
  obtain ⟨htake, hsymbol⟩ := eq_single_of_mem h hmem (by decide) (by decide) (by decide)
  cases hsymbol
  exact ⟨htake, rfl⟩

/-- A token and its text open and close the same parentheses. -/
theorem parensAfter_take {cs : List Char} {kind : Kind} {k : Nat}
    (h : tokenAt? cs = some (kind, k)) (n : Nat) (text : String) (p : Position) :
    parensAfter n (cs.take k) = (Token.mk kind text p).openAfter n := by
  by_cases hleft : '(' ∈ cs.take k
  · obtain ⟨htake, rfl⟩ := lparen_of_mem h hleft
    rw [htake]
    rfl
  · by_cases hright : ')' ∈ cs.take k
    · obtain ⟨htake, rfl⟩ := rparen_of_mem h hright
      rw [htake]
      rfl
    · rw [parensAfter_of_not_mem hleft hright]
      have hspelling := tokenAt?_spelling h
      symm
      refine Token.openAfter_of_kind_ne ?_ ?_
      · rintro rfl
        have htake := congrArg String.toList (hspelling "(" rfl)
        rw [String.toList_ofList] at htake
        exact hleft (htake ▸ List.mem_cons_self)
      · rintro rfl
        have htake := congrArg String.toList (hspelling ")" rfl)
        rw [String.toList_ofList] at htake
        exact hright (htake ▸ List.mem_cons_self)

/-- Where a parenthesis opens in the text, one opens in the tokens, inside as many others. -/
theorem Scans.exists_lparen {p : Position} {cs : List Char} {s : Scanned} (h : Scans p cs s)
    {before after : List Char} (hcs : cs = before ++ '(' :: after) (n : Nat) :
    ∃ us tok vs, s.tokens = us ++ tok :: vs ∧ tok.kind = .lparen ∧
      openAfter n us = parensAfter n before := by
  induction h generalizing before n with
  | nil p => simp at hcs
  | @blank p c rest s hblank _ ih =>
      have hc := mem_of_isBlank hblank
      cases before with
      | nil =>
          cases hcs
          exact absurd hc (by decide)
      | cons d before =>
          cases hcs
          obtain ⟨us, tok, vs, hsplit, hkind, hopen⟩ := ih rfl n
          refine ⟨us, tok, vs, hsplit, hkind, hopen.trans ?_⟩
          have hnone : parenAfter n c = n := by
            rw [parenAfter, if_neg, if_neg]
            · rintro rfl
              exact absurd hc (by decide)
            · rintro rfl
              exact absurd hc (by decide)
          change _ = parensAfter (parenAfter n c) before
          rw [hnone]
  | @token p c rest s kind k _ longest _ ih =>
      rw [← List.take_append_drop k (c :: rest), List.append_eq_append_iff] at hcs
      -- the parenthesis stands behind the first token, or is this token
      rcases hcs with ⟨passed, rfl, hdrop⟩ | ⟨left, htake, hleft⟩
      · obtain ⟨us, tok, vs, hsplit, hkind, hopen⟩ := ih hdrop (parensAfter n ((c :: rest).take k))
        refine ⟨⟨kind, String.ofList ((c :: rest).take k), p⟩ :: us, tok, vs, ?_, hkind, ?_⟩
        · rw [hsplit, List.cons_append]
        · rw [parensAfter_append, ← hopen, openAfter, List.foldl_cons,
            ← parensAfter_take longest]
          rfl
      · cases left with
        | nil =>
            rw [List.nil_append] at hleft
            rw [List.append_nil] at htake
            have hdrop : (c :: rest).drop k = [] ++ '(' :: after := hleft.symm
            obtain ⟨us, tok, vs, hsplit, hkind, hopen⟩ :=
              ih hdrop (parensAfter n ((c :: rest).take k))
            refine ⟨⟨kind, String.ofList ((c :: rest).take k), p⟩ :: us, tok, vs, ?_, hkind, ?_⟩
            · rw [hsplit, List.cons_append]
            · rw [← htake, openAfter, List.foldl_cons, ← parensAfter_take longest]
              exact hopen
        | cons d left =>
            obtain ⟨rfl, -⟩ := List.cons.inj hleft
            have hmem : '(' ∈ (c :: rest).take k := by
              rw [htake]
              simp
            obtain ⟨hsingle, rfl⟩ := lparen_of_mem longest hmem
            rw [hsingle, List.singleton_eq_append_iff] at htake
            rcases htake with ⟨rfl, -⟩ | ⟨rfl, hnil⟩
            · exact ⟨[], _, s.tokens, rfl, rfl, rfl⟩
            · cases hnil

end Lexer

/-! Parentheses of tokens -/

theorem le_mostOpen (n : Nat) (ts : List Token) : n ≤ mostOpen n ts := by
  cases ts with
  | nil => exact Nat.le_refl n
  | cons tok ts => exact Nat.le_max_left _ _

theorem openAfter_lt_mostOpen {tok : Token} (h : tok.kind = .lparen) (n : Nat)
    (us vs : List Token) : openAfter n us < mostOpen n (us ++ tok :: vs) := by
  have hafter : tok.openAfter (openAfter n us) = openAfter n us + 1 := by rw [Token.openAfter, h]
  have hle := le_mostOpen (openAfter n us + 1) vs
  rw [mostOpen_append, mostOpen, hafter]
  omega

/-- A line feed opens no parenthesis. -/
theorem mostOpen_cons_newline {tok : Token} (h : tok.kind = .newline) (n : Nat)
    (ts : List Token) : mostOpen n (tok :: ts) = mostOpen n ts := by
  have hafter : tok.openAfter n = n := by rw [Token.openAfter, h]
  rw [mostOpen, hafter]
  exact Nat.max_eq_right (le_mostOpen n ts)

theorem mostOpen_withoutNewlines (n : Nat) (ts : List Token) :
    mostOpen n (withoutNewlines ts) = mostOpen n ts := by
  induction ts generalizing n with
  | nil => rfl
  | cons tok ts ih =>
      rw [withoutNewlines, List.filter_cons]
      by_cases hnewline : tok.kind = .newline
      · rw [if_neg (by simp [hnewline]), mostOpen_cons_newline hnewline]
        exact ih n
      · rw [if_pos (by simp [hnewline]), mostOpen, mostOpen]
        exact congrArg (max n) (ih _)

theorem mostOpen_significant (k n : Nat) (ts : List Token) :
    mostOpen n (significant k ts) = mostOpen n ts := by
  induction ts generalizing k n with
  | nil => rfl
  | cons tok ts ih =>
      rw [significant_cons]
      split
      · rename_i hblank
        rw [mostOpen_cons_newline hblank.1, ih]
      · rw [mostOpen, mostOpen, ih]

theorem IsCurveExpr.mostOpen_le {axis : Option String} {ts body : List Token}
    (h : IsCurveExpr axis ts body) : mostOpen 0 ts ≤ maxNesting := by
  obtain ⟨⟨header, rfl, rfl | hheader⟩, hbody⟩ := h
  · exact hbody.nesting
  · cases hheader with
    | mk ident _ lparen word _ rparen equals =>
        simp only [List.cons_append, List.nil_append, mostOpen, Token.openAfter, ident, lparen,
          word, rparen, equals, Nat.max_le]
        exact ⟨by decide, by decide, by decide, by decide, by decide, hbody.nesting⟩

theorem nestsTo_of_separates {seps : List Token} (h : ∀ tok ∈ seps, tok.Separates) :
    NestsTo 0 seps := by
  induction seps with
  | nil => exact .nil
  | cons sep seps ih =>
      rw [List.forall_mem_cons] at h
      rcases h.1 with hkind | hkind
      · exact (ih h.2).cons_of_kind hkind (by decide) (by decide)
      · exact (ih h.2).cons_of_kind hkind (by decide) (by decide)

theorem AssignmentTokens.Valid.nestsTo {a : AssignmentTokens} (h : a.Valid) :
    ∃ k ≤ maxNesting, NestsTo k a.all := by
  obtain ⟨k, hk⟩ := h.value.derives.exists_nestsTo
  have hmost := (hk 0).2
  have hnesting := h.value.nesting
  exact ⟨k, by omega, (hk.cons_of_kind h.equals (by decide) (by decide)).cons_of_kind h.ident
    (by decide) (by decide)⟩

theorem SeparatedAssignments.nestsTo {as : List AssignmentTokens} {ts : List Token}
    (h : SeparatedAssignments as ts) : ∃ k ≤ maxNesting, NestsTo k ts := by
  induction as generalizing ts with
  | nil =>
      cases h with
      | empty separates => exact ⟨0, Nat.zero_le _, nestsTo_of_separates separates⟩
  | cons a as ih =>
      cases h with
      | first separates valid rest =>
          obtain ⟨j, hj, hall⟩ := valid.nestsTo
          obtain ⟨k, hk, hrest⟩ := ih rest.separated
          exact ⟨_, Nat.max_le.2 ⟨Nat.zero_le _, Nat.max_le.2 ⟨hj, hk⟩⟩,
            (nestsTo_of_separates separates).append (hall.append hrest)⟩

theorem SeparatedAssignments.nesting_le {all : List AssignmentTokens} {ts : List Token}
    (h : SeparatedAssignments all ts) {as : List Assignment}
    (hfits : List.Forall₂ Assignment.Fits as all) : ∀ a ∈ as, a.value.nesting ≤ maxNesting := by
  induction all generalizing ts as with
  | nil =>
      obtain rfl := List.forall₂_nil_right_iff.1 hfits
      exact List.forall_mem_nil _
  | cons tokens all ih =>
      obtain ⟨a, others, hfirst, hothers, rfl⟩ := List.forall₂_cons_right_iff.1 hfits
      cases h with
      | first _ valid rest =>
          rw [List.forall_mem_cons]
          exact ⟨valid.value.nesting_le hfirst.value, ih rest.separated hothers⟩

theorem IsClause.nestsTo {as : List AssignmentTokens} {ts : List Token} (h : IsClause as ts) :
    ∃ k ≤ maxNesting, NestsTo k ts := by
  cases h with
  | bare assignments => exact assignments.nestsTo
  | keyword ident _ assignments =>
      obtain ⟨k, hk, hnests⟩ := assignments.nestsTo
      exact ⟨k, hk, hnests.cons_of_kind ident (by decide) (by decide)⟩

/-! Sources -/

section Sources

variable {source : String} {axis : Option String}

theorem nesting_of_parseExpr {e : Expr} (h : parseExpr source axis = .ok e) :
    e.nesting ≤ maxNesting := by
  obtain ⟨s, hs⟩ := exists_scan_of_read h
  obtain ⟨body, hbody, hfit⟩ := (parseExpr_eq_ok_iff hs).1 h
  exact hbody.body.nesting_le hfit

theorem nesting_of_parseAssignments {as : List Assignment} (h : parseAssignments source = .ok as) :
    ∀ a ∈ as, a.value.nesting ≤ maxNesting := by
  obtain ⟨s, hs⟩ := exists_scan_of_read h
  obtain ⟨all, hall, hfits⟩ := (parseAssignments_eq_ok_iff hs).1 h
  exact (isClause_iff.1 hall).nesting_le hfits

theorem height_compileExpr {scope : Scope} {f : Function}
    (h : compileExpr source scope axis = .ok f) : f.height ≤ 5 * (maxNesting + 1) + 1 := by
  obtain ⟨e, he, hf⟩ := Outcome.bind_eq_ok_iff.1 h
  have hheight := Function.height_ofTree e (Outcome.mapError_eq_ok_iff.1 hf)
  have hnesting := nesting_of_parseExpr he
  rw [Rule.height] at hheight
  omega

theorem height_compileAssignments {fs : List Function} {scope : Scope}
    (h : compileAssignments source = .ok (fs, scope)) :
    ∀ f ∈ fs, f.height ≤ 5 * (maxNesting + 1) + 1 := by
  obtain ⟨as, has, hfs⟩ := Outcome.bind_eq_ok_iff.1 h
  exact Function.height_ofAssignments (nesting_of_parseAssignments has)
    (Outcome.mapError_eq_ok_iff.1 hfs)

theorem mostOpen_of_nestsTooDeep {s : Scanned} (hs : scan source = .ok s)
    (h : Text.NestsTooDeep source.toList) : maxNesting < mostOpen 0 s.tokens := by
  obtain ⟨before, after, hsource, hdeep⟩ := h
  obtain ⟨us, tok, vs, hsplit, hkind, hopen⟩ :=
    (Lexer.scans_of_scanFrom hs).exists_lparen hsource 0
  rw [hsplit]
  exact Nat.lt_of_le_of_lt (hopen ▸ hdeep) (openAfter_lt_mostOpen hkind 0 us vs)

theorem parseExpr_of_nestsTooDeep (h : Text.NestsTooDeep source.toList) (axis : Option String) :
    ∃ e detail, parseExpr source axis = .error e ∧ e.cause = .malformed detail := by
  cases hparse : parseExpr source axis with
  | error e =>
      obtain ⟨detail, hdetail⟩ := malformed_of_read hparse
      exact ⟨e, detail, rfl, hdetail⟩
  | ok e =>
      obtain ⟨s, hs⟩ := exists_scan_of_read hparse
      obtain ⟨body, hbody, _⟩ := (parseExpr_eq_ok_iff hs).1 hparse
      have hle := hbody.mostOpen_le
      rw [mostOpen_withoutNewlines] at hle
      exact absurd hle (Nat.not_le.2 (mostOpen_of_nestsTooDeep hs h))

theorem parseAssignments_of_nestsTooDeep (h : Text.NestsTooDeep source.toList) :
    ∃ e detail, parseAssignments source = .error e ∧ e.cause = .malformed detail := by
  cases hparse : parseAssignments source with
  | error e =>
      obtain ⟨detail, hdetail⟩ := malformed_of_read hparse
      exact ⟨e, detail, rfl, hdetail⟩
  | ok as =>
      obtain ⟨s, hs⟩ := exists_scan_of_read hparse
      obtain ⟨all, hall, _⟩ := (parseAssignments_eq_ok_iff hs).1 hparse
      obtain ⟨k, hk, hnests⟩ := hall.nestsTo
      have hmost := (hnests 0).2
      rw [← significant_eq_clauseTokens, mostOpen_significant] at hmost
      have hdeep := mostOpen_of_nestsTooDeep hs h
      omega

end Sources

/-- However long a source is, compiled functions are at most `5 * (maxNesting + 1) + 1` nodes high,
and in parse trees at most `maxNesting` sums stand in parentheses one inside the other. A source in
which a parenthesis opens inside `maxNesting` others is rejected with a syntax error. -/
theorem nesting_bounds_height :
    (∀ source fs scope, compileAssignments source = .ok (fs, scope) →
      ∀ f ∈ fs, f.height ≤ 5 * (maxNesting + 1) + 1) ∧
    (∀ source scope axis f, compileExpr source scope axis = .ok f →
      f.height ≤ 5 * (maxNesting + 1) + 1) ∧
    (∀ source as, parseAssignments source = .ok as → ∀ a ∈ as, a.value.nesting ≤ maxNesting) ∧
    (∀ source axis e, parseExpr source axis = .ok e → e.nesting ≤ maxNesting) ∧
    ∀ source : String, Text.NestsTooDeep source.toList →
      (∃ e detail, parseAssignments source = .error e ∧ compileAssignments source = .error e ∧
        e.cause = .malformed detail) ∧
      ∀ scope axis, ∃ e detail, parseExpr source axis = .error e ∧
        compileExpr source scope axis = .error e ∧ e.cause = .malformed detail := by
  refine ⟨fun _ _ _ h => height_compileAssignments h, fun _ _ _ _ h => height_compileExpr h,
    fun _ _ h => nesting_of_parseAssignments h, fun _ _ _ h => nesting_of_parseExpr h, ?_⟩
  intro source hdeep
  constructor
  · obtain ⟨e, detail, he, hcause⟩ := parseAssignments_of_nestsTooDeep hdeep
    exact ⟨e, detail, he, by rw [compileAssignments, he]; rfl, hcause⟩
  · intro scope axis
    obtain ⟨e, detail, he, hcause⟩ := parseExpr_of_nestsTooDeep hdeep axis
    exact ⟨e, detail, he, by rw [compileExpr, he]; rfl, hcause⟩

theorem nesting_bounds_height_groups :
    (∃ fs scope, compileAssignments "u = -(t + sin (t * t))" = .ok (fs, scope) ∧
      ∀ f ∈ fs, f.height ≤ 166) ∧
    (∃ f, compileExpr "((t))" .initial none = .ok f ∧ f.height ≤ 166) ∧
    (∃ as, parseAssignments "u = -(t + sin (t * t))" = .ok as ∧
      ∀ a ∈ as, a.value.nesting ≤ 32) ∧
    (∃ e, parseExpr "((t))" none = .ok e ∧ e.nesting ≤ 32) ∧
    Text.NestsTooDeep (List.replicate 33 '(') ∧
    ∃ e detail, parseExpr (String.ofList (List.replicate 33 '(')) none = .error e ∧
      e.cause = .malformed detail := by
  refine ⟨?_, ?_, ?_, ?_, ?_⟩
  · obtain ⟨⟨fs, scope⟩, h⟩ := Outcome.exists_eq_ok
      (show (compileAssignments "u = -(t + sin (t * t))").isOk = true by decide +kernel)
    exact ⟨fs, scope, h, nesting_bounds_height.1 _ _ _ h⟩
  · obtain ⟨f, h⟩ := Outcome.exists_eq_ok
      (show (compileExpr "((t))" .initial none).isOk = true by decide +kernel)
    exact ⟨f, h, nesting_bounds_height.2.1 _ _ _ _ h⟩
  · obtain ⟨as, h⟩ := Outcome.exists_eq_ok
      (show (parseAssignments "u = -(t + sin (t * t))").isOk = true by decide +kernel)
    exact ⟨as, h, nesting_bounds_height.2.2.1 _ _ h⟩
  · obtain ⟨e, h⟩ := Outcome.exists_eq_ok
      (show (parseExpr "((t))" none).isOk = true by decide +kernel)
    exact ⟨e, h, nesting_bounds_height.2.2.2.1 _ _ _ h⟩
  · have hdeep : Text.NestsTooDeep (List.replicate 33 '(') :=
      ⟨List.replicate 32 '(', [], by decide, by decide⟩
    have hsource : Text.NestsTooDeep (String.ofList (List.replicate 33 '(')).toList := by
      rw [String.toList_ofList]
      exact hdeep
    obtain ⟨e, detail, he, _, hcause⟩ :=
      (nesting_bounds_height.2.2.2.2 _ hsource).2 .initial none
    exact ⟨hdeep, e, detail, he, hcause⟩

end FlightCurve

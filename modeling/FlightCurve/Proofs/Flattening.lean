import Mathlib.Data.List.Forall2
import FlightCurve.Proofs.Grammar

/-!
Flattening trees back to tokens. A tree keeps the places of its names, numbers and operators, and
not those of signs and parentheses, so a flattened tree is a list of leaves that tokens may fit.

The main facts are that a rule derives exactly the tokens that its flattened trees fit, and that the
nesting of a tree is the number of parentheses that are open at most.
-/

namespace FlightCurve

/-- What a tree keeps of a token. -/
structure Leaf where
  kind : Kind
  text : String
  position : Option Position
  deriving DecidableEq, Repr

namespace Leaf

/-- A leaf of which the place is kept. -/
def placed (kind : Kind) (word : Placed String) : Leaf := ⟨kind, word.value, some word.position⟩

def sign : Leaf := ⟨.minus, "-", none⟩

def left : Leaf := ⟨.lparen, "(", none⟩

def right : Leaf := ⟨.rparen, ")", none⟩

/-- A token is what a leaf was made of: of its kind, with its text, and at its place where the leaf
has one. -/
structure Fits (leaf : Leaf) (tok : Token) : Prop where
  kind : leaf.kind = tok.kind
  text : leaf.text = tok.text
  position : ∀ p ∈ leaf.position, p = tok.position

instance (leaf : Leaf) (tok : Token) : Decidable (leaf.Fits tok) :=
  decidable_of_iff
    (leaf.kind = tok.kind ∧ leaf.text = tok.text ∧ ∀ p ∈ leaf.position, p = tok.position)
    ⟨fun ⟨kind, text, position⟩ => ⟨kind, text, position⟩,
      fun ⟨kind, text, position⟩ => ⟨kind, text, position⟩⟩

end Leaf

/-- The kind of the token that an operator of a chain is written as. -/
def Chain.opKind : (c : Chain) → c.Op → Kind
  | .sum, .plus => .plus
  | .sum, .minus => .minus
  | .product, .times => .star
  | .product, .divide => .slash
  | .product, .floorDivide => .doubleSlash
  | .product, .modulo => .percent
  | .power, () => .caret

mutual

/-- The leaves of a tree in the order of the text: operators between operands, a minus before what
is negated, parentheses around a sum that is a primary expression. -/
def Tree.flatten {r : Rule} : Tree r → List Leaf
  | .chain first rest => first.flatten ++ rest.flatten
  | .signed true operand => .sign :: operand.flatten
  | .signed false operand => operand.flatten
  | .callOne name argument => .placed .ident name :: argument.flatten
  | .callTwo name first second => .placed .ident name :: (first.flatten ++ second.flatten)
  | .plain primary => primary.flatten
  | .group inner => .left :: (inner.flatten ++ [.right])
  | .variable name => [.placed .ident name]
  | .number literal => [.placed .number literal]

def Tail.flatten {c : Chain} : Tail c → List Leaf
  | .done => []
  | .step op operand rest =>
      .placed (c.opKind op.value) ⟨c.opText op.value, op.position⟩ ::
        (operand.flatten ++ rest.flatten)

end

/-- Tokens fit leaves one by one. -/
abbrev Fit (leaves : List Leaf) (ts : List Token) : Prop := List.Forall₂ Leaf.Fits leaves ts

theorem fit_append_iff {leaves leaves' : List Leaf} {ts : List Token} :
    Fit (leaves ++ leaves') ts ↔ ∃ us vs, ts = us ++ vs ∧ Fit leaves us ∧ Fit leaves' vs := by
  constructor
  · intro h
    induction leaves generalizing ts with
    | nil => exact ⟨[], ts, rfl, .nil, h⟩
    | cons leaf leaves ih =>
        obtain ⟨tok, rest, hleaf, hrest, rfl⟩ := List.forall₂_cons_left_iff.1 h
        obtain ⟨us, vs, rfl, hus, hvs⟩ := ih hrest
        exact ⟨tok :: us, vs, rfl, .cons hleaf hus, hvs⟩
  · rintro ⟨us, vs, rfl, hus, hvs⟩
    exact List.rel_append hus hvs

/-! Operators -/

namespace Chain

theorem op?_opKind (c : Chain) (op : c.Op) : c.op? (c.opKind op) = some op := by
  cases c <;> cases op <;> rfl

theorem opKind_of_op? {c : Chain} {kind : Kind} {op : c.Op} (h : c.op? kind = some op) :
    c.opKind op = kind := by
  cases c <;> cases kind <;> cases h <;> rfl

theorem op?_isSome_iff (c : Chain) (kind : Kind) :
    (∃ op, c.op? kind = some op) ↔ kind ∈ c.operators := by
  cases c <;> cases kind <;> simp [op?, operators, AddOp.ofKind?, MulOp.ofKind?]

theorem opKind_mem_operators (c : Chain) (op : c.Op) : c.opKind op ∈ c.operators :=
  (c.op?_isSome_iff _).1 ⟨op, c.op?_opKind op⟩

theorem opKind_ne_lparen (c : Chain) (op : c.Op) : c.opKind op ≠ .lparen := by
  cases c <;> cases op <;> decide

theorem opKind_ne_rparen (c : Chain) (op : c.Op) : c.opKind op ≠ .rparen := by
  cases c <;> cases op <;> decide

end Chain

/-! Spelling -/

/-- The text of a token whose kind has only one. -/
def Kind.spelling? : Kind → Option String
  | .number | .ident => none
  | .plus => some "+"
  | .minus => some "-"
  | .star => some "*"
  | .slash => some "/"
  | .doubleSlash => some "//"
  | .percent => some "%"
  | .caret => some "^"
  | .equals => some "="
  | .lparen => some "("
  | .rparen => some ")"
  | .semicolon => some ";"
  | .newline => some "\n"
  | .eof => some ""

/-- A token is spelled as its kind demands. -/
def Token.Spelled (tok : Token) : Prop := ∀ text ∈ tok.kind.spelling?, tok.text = text

theorem Chain.spelling?_opKind (c : Chain) (op : c.Op) :
    (c.opKind op).spelling? = some (c.opText op) := by
  cases c <;> cases op <;> rfl

theorem Token.Spelled.text_eq {tok : Token} (h : tok.Spelled) {kind : Kind}
    (hkind : tok.kind = kind) {text : String} (htext : kind.spelling? = some text) :
    text = tok.text :=
  (h text (by rw [hkind, htext]; rfl)).symm

namespace Leaf

theorem fits_sign {tok : Token} (h : tok.Spelled) (hkind : tok.kind = .minus) : sign.Fits tok :=
  ⟨hkind.symm, h.text_eq hkind rfl, by simp [sign]⟩

theorem fits_left {tok : Token} (h : tok.Spelled) (hkind : tok.kind = .lparen) : left.Fits tok :=
  ⟨hkind.symm, h.text_eq hkind rfl, by simp [left]⟩

theorem fits_right {tok : Token} (h : tok.Spelled) (hkind : tok.kind = .rparen) : right.Fits tok :=
  ⟨hkind.symm, h.text_eq hkind rfl, by simp [right]⟩

theorem fits_placed {tok : Token} {kind : Kind} (hkind : tok.kind = kind) :
    (placed kind tok.placed).Fits tok :=
  ⟨hkind.symm, rfl, by simp [placed, Token.placed]⟩

theorem fits_operator {c : Chain} {tok : Token} (h : tok.Spelled) {op : c.Op}
    (hop : c.op? tok.kind = some op) :
    (placed (c.opKind op) ⟨c.opText op, tok.position⟩).Fits tok :=
  ⟨Chain.opKind_of_op? hop,
    h.text_eq (Chain.opKind_of_op? hop).symm (c.spelling?_opKind op), by simp [placed]⟩

end Leaf

/-! What the tokens of each form of tree look like -/

theorem Leaf.Fits.kind_and_placed {kind : Kind} {word : Placed String} {tok : Token}
    (h : (Leaf.placed kind word).Fits tok) : tok.kind = kind ∧ tok.placed = word := by
  refine ⟨h.kind.symm, ?_⟩
  have hposition : word.position = tok.position := h.position _ rfl
  have htext : word.value = tok.text := h.text
  rw [Token.placed, ← hposition, ← htext]

namespace Tree

theorem fit_chain {c : Chain} {first : Tree c.operand} {rest : Tail c} {ts : List Token}
    (h : Fit (chain first rest).flatten ts) :
    ∃ us vs, ts = us ++ vs ∧ Fit first.flatten us ∧ Fit rest.flatten vs := by
  rw [flatten] at h
  exact fit_append_iff.1 h

theorem fit_negated {operand : Tree (.chain .power)} {ts : List Token}
    (h : Fit (signed true operand).flatten ts) :
    ∃ sign us, ts = sign :: us ∧ sign.kind = .minus ∧ Fit operand.flatten us := by
  rw [flatten] at h
  obtain ⟨sign, us, hsign, hus, rfl⟩ := List.forall₂_cons_left_iff.1 h
  exact ⟨sign, us, rfl, hsign.kind.symm, hus⟩

theorem fit_callOne {name : Placed String} {argument : Tree .primary} {ts : List Token}
    (h : Fit (callOne name argument).flatten ts) :
    ∃ tok us, ts = tok :: us ∧ tok.kind = .ident ∧ tok.placed = name ∧ Fit argument.flatten us := by
  rw [flatten] at h
  obtain ⟨tok, us, htok, hus, rfl⟩ := List.forall₂_cons_left_iff.1 h
  obtain ⟨hkind, hname⟩ := htok.kind_and_placed
  exact ⟨tok, us, rfl, hkind, hname, hus⟩

theorem fit_callTwo {name : Placed String} {first second : Tree .primary} {ts : List Token}
    (h : Fit (callTwo name first second).flatten ts) :
    ∃ tok us vs, ts = tok :: (us ++ vs) ∧ tok.kind = .ident ∧ tok.placed = name ∧
      Fit first.flatten us ∧ Fit second.flatten vs := by
  rw [flatten] at h
  obtain ⟨tok, args, htok, hargs, rfl⟩ := List.forall₂_cons_left_iff.1 h
  obtain ⟨us, vs, rfl, hus, hvs⟩ := fit_append_iff.1 hargs
  obtain ⟨hkind, hname⟩ := htok.kind_and_placed
  exact ⟨tok, us, vs, rfl, hkind, hname, hus, hvs⟩

theorem fit_group {inner : Expr} {ts : List Token} (h : Fit (group inner).flatten ts) :
    ∃ left us right, ts = left :: (us ++ [right]) ∧ left.kind = .lparen ∧ Fit inner.flatten us ∧
      right.kind = .rparen := by
  rw [flatten] at h
  obtain ⟨left, body, hleft, hbody, rfl⟩ := List.forall₂_cons_left_iff.1 h
  obtain ⟨us, vs, rfl, hus, hvs⟩ := fit_append_iff.1 hbody
  obtain ⟨right, ws, hright, hws, rfl⟩ := List.forall₂_cons_left_iff.1 hvs
  obtain rfl := List.forall₂_nil_left_iff.1 hws
  exact ⟨left, us, right, rfl, hleft.kind.symm, hus, hright.kind.symm⟩

theorem fit_variable {name : Placed String} {ts : List Token}
    (h : Fit (Tree.variable name).flatten ts) :
    ∃ tok, ts = [tok] ∧ tok.kind = .ident ∧ tok.placed = name := by
  rw [flatten] at h
  obtain ⟨tok, us, htok, hus, rfl⟩ := List.forall₂_cons_left_iff.1 h
  obtain rfl := List.forall₂_nil_left_iff.1 hus
  exact ⟨tok, rfl, htok.kind_and_placed⟩

theorem fit_number {literal : Placed String} {ts : List Token}
    (h : Fit (number literal).flatten ts) :
    ∃ tok, ts = [tok] ∧ tok.kind = .number ∧ tok.placed = literal := by
  rw [flatten] at h
  obtain ⟨tok, us, htok, hus, rfl⟩ := List.forall₂_cons_left_iff.1 h
  obtain rfl := List.forall₂_nil_left_iff.1 hus
  exact ⟨tok, rfl, htok.kind_and_placed⟩

end Tree

theorem Tail.fit_step {c : Chain} {op : Placed c.Op} {operand : Tree c.operand} {rest : Tail c}
    {ts : List Token} (h : Fit (step op operand rest).flatten ts) :
    ∃ tok us vs, ts = tok :: (us ++ vs) ∧ tok.kind = c.opKind op.value ∧
      tok.position = op.position ∧ Fit operand.flatten us ∧ Fit rest.flatten vs := by
  rw [flatten] at h
  obtain ⟨tok, more, htok, hmore, rfl⟩ := List.forall₂_cons_left_iff.1 h
  obtain ⟨us, vs, rfl, hus, hvs⟩ := fit_append_iff.1 hmore
  exact ⟨tok, us, vs, rfl, htok.kind.symm, (htok.position _ rfl).symm, hus, hvs⟩

/-! Derivations and trees -/

mutual

/-- The tokens that a flattened tree fits are derived by its rule. -/
theorem Tree.derives_of_fit {r : Rule} (tree : Tree r) {ts : List Token}
    (h : Fit tree.flatten ts) : r.Derives ts := by
  match tree, h with
  | .chain first rest, h =>
      obtain ⟨us, vs, rfl, hus, hvs⟩ := Tree.fit_chain h
      exact rest.derives_of_fit (first.derives_of_fit hus) hvs
  | .signed true operand, h =>
      obtain ⟨sign, us, rfl, hsign, hus⟩ := Tree.fit_negated h
      exact .negated hsign (operand.derives_of_fit hus)
  | .signed false operand, h => exact .unsigned (operand.derives_of_fit h)
  | .callOne name argument, h =>
      obtain ⟨tok, us, rfl, hident, _, hus⟩ := Tree.fit_callOne h
      exact .callOne hident (argument.derives_of_fit hus)
  | .callTwo name first second, h =>
      obtain ⟨tok, us, vs, rfl, hident, _, hus, hvs⟩ := Tree.fit_callTwo h
      exact .callTwo hident (first.derives_of_fit hus) (second.derives_of_fit hvs)
  | .plain primary, h => exact .plain (primary.derives_of_fit h)
  | .group inner, h =>
      obtain ⟨left, us, right, rfl, hleft, hus, hright⟩ := Tree.fit_group h
      exact .group hleft (inner.derives_of_fit hus) hright
  | .variable name, h =>
      obtain ⟨tok, rfl, hident, _⟩ := Tree.fit_variable h
      exact .name hident
  | .number literal, h =>
      obtain ⟨tok, rfl, hnumber, _⟩ := Tree.fit_number h
      exact .literal hnumber

theorem Tail.derives_of_fit {c : Chain} (tail : Tail c) {first ts : List Token}
    (hfirst : c.operand.Derives first) (h : Fit tail.flatten ts) :
    (Rule.chain c).Derives (first ++ ts) := by
  match tail, h with
  | .done, h =>
      obtain rfl := List.forall₂_nil_left_iff.1 h
      rw [List.append_nil]
      exact .operand hfirst
  | .step op operand rest, h =>
      obtain ⟨tok, us, vs, rfl, hkind, _, hus, hvs⟩ := Tail.fit_step h
      refine .operator hfirst ?_ (rest.derives_of_fit (operand.derives_of_fit hus) hvs)
      rw [hkind]
      exact c.opKind_mem_operators op.value

end

/-- Whatever a rule derives, if it is spelled well, is a flattened tree. -/
theorem Rule.Derives.exists_tree {r : Rule} {ts : List Token} (h : r.Derives ts)
    (hspelled : ∀ tok ∈ ts, tok.Spelled) : ∃ tree : Tree r, Fit tree.flatten ts := by
  induction h with
  | operand _ ih =>
      obtain ⟨first, hfirst⟩ := ih hspelled
      exact ⟨.chain first .done, by simpa only [Tree.flatten, Tail.flatten, List.append_nil]⟩
  | @operator c us vs tok _ between _ ihFirst ihRest =>
      rw [List.forall_mem_append, List.forall_mem_cons] at hspelled
      obtain ⟨hus, htok, hvs⟩ := hspelled
      obtain ⟨first, hfirst⟩ := ihFirst hus
      -- the chain after the operator gives up its first operand to the operator
      obtain ⟨⟨second, rest⟩, hrest⟩ := ihRest hvs
      obtain ⟨op, hop⟩ := (c.op?_isSome_iff tok.kind).2 between
      refine ⟨.chain first (.step ⟨op, tok.position⟩ second rest), ?_⟩
      simp only [Tree.flatten, Tail.flatten] at hrest ⊢
      exact List.rel_append hfirst (.cons (Leaf.fits_operator htok hop) hrest)
  | unsigned _ ih =>
      obtain ⟨operand, hoperand⟩ := ih hspelled
      exact ⟨.signed false operand, by simpa only [Tree.flatten]⟩
  | negated minus _ ih =>
      rw [List.forall_mem_cons] at hspelled
      obtain ⟨operand, hoperand⟩ := ih hspelled.2
      exact ⟨.signed true operand, .cons (Leaf.fits_sign hspelled.1 minus) hoperand⟩
  | @callTwo us vs name ident _ _ ihFirst ihSecond =>
      rw [List.forall_mem_cons, List.forall_mem_append] at hspelled
      obtain ⟨first, hfirst⟩ := ihFirst hspelled.2.1
      obtain ⟨second, hsecond⟩ := ihSecond hspelled.2.2
      exact ⟨.callTwo name.placed first second,
        .cons (Leaf.fits_placed ident) (List.rel_append hfirst hsecond)⟩
  | @callOne us name ident _ ih =>
      rw [List.forall_mem_cons] at hspelled
      obtain ⟨argument, hargument⟩ := ih hspelled.2
      exact ⟨.callOne name.placed argument, .cons (Leaf.fits_placed ident) hargument⟩
  | plain _ ih =>
      obtain ⟨primary, hprimary⟩ := ih hspelled
      exact ⟨.plain primary, by simpa only [Tree.flatten]⟩
  | group lparen _ rparen ih =>
      rw [List.forall_mem_cons, List.forall_mem_append, List.forall_mem_singleton] at hspelled
      obtain ⟨hleft, hinner, hright⟩ := hspelled
      obtain ⟨inner, hfit⟩ := ih hinner
      exact ⟨.group inner, .cons (Leaf.fits_left hleft lparen)
        (List.rel_append hfit (.cons (Leaf.fits_right hright rparen) .nil))⟩
  | @name name ident => exact ⟨.variable name.placed, .cons (Leaf.fits_placed ident) .nil⟩
  | @literal literal number =>
      exact ⟨.number literal.placed, .cons (Leaf.fits_placed number) .nil⟩

/-! Nesting -/

theorem openAfter_append (n : Nat) (us vs : List Token) :
    openAfter n (us ++ vs) = openAfter (openAfter n us) vs :=
  List.foldl_append

theorem mostOpen_append (n : Nat) (us vs : List Token) :
    mostOpen n (us ++ vs) = max (mostOpen n us) (mostOpen (openAfter n us) vs) := by
  induction us generalizing n with
  | nil =>
      have hle : n ≤ mostOpen n vs := by
        cases vs with
        | nil => exact Nat.le_refl n
        | cons tok vs => exact Nat.le_max_left _ _
      exact (Nat.max_eq_right hle).symm
  | cons tok us ih =>
      rw [List.cons_append, mostOpen, mostOpen, ih, Nat.max_assoc]
      rfl

/-- Wherever they stand, the tokens close all parentheses that they open, and they open `k` at the
same time at most. -/
def NestsTo (k : Nat) (ts : List Token) : Prop :=
  ∀ n, openAfter n ts = n ∧ mostOpen n ts = n + k

namespace NestsTo

theorem nil : NestsTo 0 [] := fun _ => ⟨rfl, rfl⟩

theorem append {j k : Nat} {us vs : List Token} (hus : NestsTo j us) (hvs : NestsTo k vs) :
    NestsTo (max j k) (us ++ vs) := by
  intro n
  obtain ⟨hopen, hmost⟩ := hus n
  obtain ⟨hopen', hmost'⟩ := hvs n
  rw [openAfter_append, mostOpen_append, hopen, hopen', hmost, hmost']
  exact ⟨rfl, (Nat.add_max_add_left n j k).symm ▸ rfl⟩

/-- A token that is no parenthesis changes nothing. -/
theorem cons {k : Nat} {tok : Token} {ts : List Token} (h : NestsTo k ts)
    (hleft : tok.kind ≠ .lparen) (hright : tok.kind ≠ .rparen) : NestsTo k (tok :: ts) := by
  intro n
  obtain ⟨hopen, hmost⟩ := h n
  have htok : tok.openAfter n = n := Token.openAfter_of_kind_ne hleft hright
  constructor
  · rw [openAfter, List.foldl_cons, htok]
    exact hopen
  · rw [mostOpen, htok, hmost]
    omega

theorem cons_of_kind {k : Nat} {kind : Kind} {tok : Token} {ts : List Token} (h : NestsTo k ts)
    (hkind : tok.kind = kind) (hleft : kind ≠ .lparen) (hright : kind ≠ .rparen) :
    NestsTo k (tok :: ts) :=
  h.cons (hkind ▸ hleft) (hkind ▸ hright)

theorem group {k : Nat} {left right : Token} {ts : List Token} (hleft : left.kind = .lparen)
    (hright : right.kind = .rparen) (h : NestsTo k ts) :
    NestsTo (k + 1) (left :: (ts ++ [right])) := by
  intro n
  obtain ⟨hopen, hmost⟩ := h (n + 1)
  have hin : left.openAfter n = n + 1 := by rw [Token.openAfter, hleft]
  have hout : right.openAfter (n + 1) = n := by rw [Token.openAfter, hright, Nat.add_sub_cancel]
  constructor
  · rw [openAfter, List.foldl_cons, hin]
    change openAfter (n + 1) (ts ++ [right]) = n
    rw [openAfter_append, hopen]
    exact hout
  · rw [mostOpen, hin, mostOpen_append, hopen, hmost, mostOpen, mostOpen, hout]
    omega

end NestsTo

/-- What a rule derives closes all parentheses that it opens. -/
theorem Rule.Derives.exists_nestsTo {r : Rule} {ts : List Token} (h : r.Derives ts) :
    ∃ k, NestsTo k ts := by
  induction h with
  | operand _ ih => exact ih
  | @operator c us vs tok _ between _ ihFirst ihRest =>
      obtain ⟨j, hus⟩ := ihFirst
      obtain ⟨k, hvs⟩ := ihRest
      obtain ⟨op, hop⟩ := (c.op?_isSome_iff tok.kind).2 between
      have hkind : tok.kind = c.opKind op := (Chain.opKind_of_op? hop).symm
      exact ⟨max j k,
        hus.append (hvs.cons_of_kind hkind (c.opKind_ne_lparen op) (c.opKind_ne_rparen op))⟩
  | unsigned _ ih => exact ih
  | negated minus _ ih =>
      obtain ⟨k, hk⟩ := ih
      exact ⟨k, hk.cons_of_kind minus (by decide) (by decide)⟩
  | callTwo ident _ _ ihFirst ihSecond =>
      obtain ⟨j, hus⟩ := ihFirst
      obtain ⟨k, hvs⟩ := ihSecond
      exact ⟨max j k, (hus.append hvs).cons_of_kind ident (by decide) (by decide)⟩
  | callOne ident _ ih =>
      obtain ⟨k, hk⟩ := ih
      exact ⟨k, hk.cons_of_kind ident (by decide) (by decide)⟩
  | plain _ ih => exact ih
  | group lparen _ rparen ih =>
      obtain ⟨k, hk⟩ := ih
      exact ⟨k + 1, hk.group lparen rparen⟩
  | name ident => exact ⟨0, NestsTo.nil.cons_of_kind ident (by decide) (by decide)⟩
  | literal number => exact ⟨0, NestsTo.nil.cons_of_kind number (by decide) (by decide)⟩

mutual

/-- The nesting of a tree shows in its tokens. -/
theorem Tree.nestsTo_of_fit {r : Rule} (tree : Tree r) {ts : List Token}
    (h : Fit tree.flatten ts) : NestsTo tree.nesting ts := by
  match tree, h with
  | .chain first rest, h =>
      obtain ⟨us, vs, rfl, hus, hvs⟩ := Tree.fit_chain h
      exact (first.nestsTo_of_fit hus).append (rest.nestsTo_of_fit hvs)
  | .signed true operand, h =>
      obtain ⟨sign, us, rfl, hsign, hus⟩ := Tree.fit_negated h
      exact (operand.nestsTo_of_fit hus).cons_of_kind hsign (by decide) (by decide)
  | .signed false operand, h => exact operand.nestsTo_of_fit h
  | .callOne name argument, h =>
      obtain ⟨tok, us, rfl, hident, _, hus⟩ := Tree.fit_callOne h
      exact (argument.nestsTo_of_fit hus).cons_of_kind hident (by decide) (by decide)
  | .callTwo name first second, h =>
      obtain ⟨tok, us, vs, rfl, hident, _, hus, hvs⟩ := Tree.fit_callTwo h
      have hargs := (first.nestsTo_of_fit hus).append (second.nestsTo_of_fit hvs)
      exact hargs.cons_of_kind hident (by decide) (by decide)
  | .plain primary, h => exact primary.nestsTo_of_fit h
  | .group inner, h =>
      obtain ⟨left, us, right, rfl, hleft, hus, hright⟩ := Tree.fit_group h
      exact (inner.nestsTo_of_fit hus).group hleft hright
  | .variable name, h =>
      obtain ⟨tok, rfl, hident, _⟩ := Tree.fit_variable h
      exact NestsTo.nil.cons_of_kind hident (by decide) (by decide)
  | .number literal, h =>
      obtain ⟨tok, rfl, hnumber, _⟩ := Tree.fit_number h
      exact NestsTo.nil.cons_of_kind hnumber (by decide) (by decide)

theorem Tail.nestsTo_of_fit {c : Chain} (tail : Tail c) {ts : List Token}
    (h : Fit tail.flatten ts) : NestsTo tail.nesting ts := by
  match tail, h with
  | .done, h =>
      obtain rfl := List.forall₂_nil_left_iff.1 h
      exact .nil
  | .step op operand rest, h =>
      obtain ⟨tok, us, vs, rfl, hkind, _, hus, hvs⟩ := Tail.fit_step h
      have hmore := (operand.nestsTo_of_fit hus).append (rest.nestsTo_of_fit hvs)
      exact hmore.cons_of_kind hkind (c.opKind_ne_lparen _) (c.opKind_ne_rparen _)

end

theorem Tree.mostOpen_of_fit {r : Rule} (tree : Tree r) {ts : List Token}
    (h : Fit tree.flatten ts) : mostOpen 0 ts = tree.nesting :=
  ((tree.nestsTo_of_fit h) 0).2.trans (Nat.zero_add _)

end FlightCurve

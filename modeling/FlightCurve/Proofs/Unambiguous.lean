import FlightCurve.Proofs.FewestDigits
import FlightCurve.Proofs.Session
import FlightCurve.Proofs.Surface

/-!
Texts that say which function is meant. What can be compiled is begun by the text of one function
only: the text is read from the left, its first characters tell the form of the function, and the
text of an operand ends where a blank, a comma or a closing parenthesis stands.

The induction is on functions that are compiled. Numbers in them have no sign, so a minus at the
front of a text is a negation, and the one between two blanks an operator.
-/

namespace FlightCurve

namespace Function

/-! Texts of chains -/

/-- What follows the first member of a chain in its text. -/
def laterChars (c : Chain) (members : List (c.Op × Function)) : List Char :=
  members.flatMap fun (op, f) => ' ' :: ((c.opText op).toList ++ ' ' :: f.chars)

theorem laterChars_cons (c : Chain) (op : c.Op) (f : Function) (members : List (c.Op × Function)) :
    laterChars c ((op, f) :: members) =
      ' ' :: ((c.opText op).toList ++ ' ' :: (f.chars ++ laterChars c members)) := by
  simp [laterChars]

theorem laterTermsChars_eq (terms : List (AddOp × Function)) :
    laterTermsChars terms = laterChars .sum terms := by
  induction terms with
  | nil => rfl
  | cons p terms ih =>
      rw [laterTermsChars, ih, laterChars_cons]
      rfl

theorem laterFactorsChars_eq (factors : List (MulOp × Function)) :
    laterFactorsChars factors = laterChars .product factors := by
  induction factors with
  | nil => rfl
  | cons p factors ih =>
      rw [laterFactorsChars, ih, laterChars_cons]
      rfl

theorem laterBasesChars_eq (bases : List (Unit × Function)) :
    laterBasesChars (bases.map (·.2)) = laterChars .power bases := by
  induction bases with
  | nil => rfl
  | cons p bases ih =>
      have hcaret : ∀ op, (Chain.power.opText op).toList = ['^'] := by
        intro op
        cases op
        decide
      rw [List.map_cons, laterBasesChars, ih, laterChars_cons, hcaret]
      rfl

theorem chars_ofChain (c : Chain) (first : Function) {members : List (c.Op × Function)}
    (h : members ≠ []) : (ofChain c first members).chars =
      '(' :: (first.chars ++ (laterChars c members ++ [')'])) := by
  obtain ⟨p, members, rfl⟩ := List.exists_cons_of_ne_nil h
  cases c with
  | sum =>
      change '(' :: (first.chars ++ laterTermsChars (p :: members) ++ [')']) = _
      rw [laterTermsChars_eq, List.append_assoc]
  | product =>
      change '(' :: (first.chars ++ laterFactorsChars (p :: members) ++ [')']) = _
      rw [laterFactorsChars_eq, List.append_assoc]
  | power =>
      change '(' :: (first.chars ++ laterBasesChars ((p :: members).map (·.2)) ++ [')']) = _
      rw [laterBasesChars_eq, List.append_assoc]

/-- Functions that trees compile to: chains have an operator, and numbers have no sign. -/
inductive Compiled : Function → Prop
  | parameter : Compiled .parameter
  | ref (index : Nat) : Compiled (.ref index)
  | const {value : Float} (unsigned : Double.IsUnsigned value) : Compiled (.const value)
  | chain (c : Chain) {first : Function} {members : List (c.Op × Function)} (later : members ≠ [])
      (head : Compiled first) (tail : ∀ p ∈ members, Compiled p.2) :
      Compiled (ofChain c first members)
  | neg {operand : Function} (inner : Compiled operand) : Compiled (.neg operand)
  | unary (fn : UnaryFn) {operand : Function} (inner : Compiled operand) :
      Compiled (.unary fn operand)
  | binary (fn : BinaryFn) {first second : Function} (left : Compiled first)
      (right : Compiled second) : Compiled (.binary fn first second)

/-! How a text begins -/

def isWordChar (c : Char) : Bool := !(c = ' ' || c = '(' || c = ')' || c = ',')

/-- Nothing, or what stands behind a function within another one. -/
def Ended (rest : List Char) : Prop := ∀ c ∈ rest.head?, c ∈ [' ', ')', ',']

/-- A text without parentheses or blanks, and not a negation. -/
structure IsWordText (w : List Char) : Prop where
  chars : ∀ c ∈ w, isWordChar c = true
  first : ∃ c cs, w = c :: cs ∧ c ≠ '-'

/-- How the text of a function begins. -/
inductive Opening
  | word (text : List Char)
  | call (name : List Char)
  | chain
  | negation

/-- How a text begins. -/
def Opening.of : List Char → Opening
  | '(' :: _ => .chain
  | '-' :: _ => .negation
  | cs =>
      if (cs.dropWhile isWordChar).head? = some '(' then .call (cs.takeWhile isWordChar)
      else .word (cs.takeWhile isWordChar)

def opening : Function → Opening
  | .sum _ => .chain
  | .product _ => .chain
  | .power _ => .chain
  | .neg _ => .negation
  | .unary fn _ => .call fn.name.toList
  | .binary fn _ _ => .call fn.name.toList
  | f => .word f.chars

theorem opening_ofChain (c : Chain) (first : Function) {members : List (c.Op × Function)}
    (h : members ≠ []) : (ofChain c first members).opening = .chain := by
  obtain ⟨p, members, rfl⟩ := List.exists_cons_of_ne_nil h
  cases c <;> rfl

theorem opening_of_word {w : List Char} (hw : IsWordText w) {rest : List Char}
    (hrest : ∀ c ∈ rest.head?, isWordChar c = false) :
    Opening.of (w ++ rest) = if rest.head? = some '(' then .call w else .word w := by
  obtain ⟨htake, hdrop⟩ := Decimal.takeWhile_dropWhile_append hw.chars hrest
  obtain ⟨c, cs, rfl, hminus⟩ := hw.first
  have hc := hw.chars c List.mem_cons_self
  rw [List.cons_append] at htake hdrop ⊢
  unfold Opening.of
  split
  · rename_i heq
    cases heq
    cases hc
  · rename_i heq
    cases heq
    exact absurd rfl hminus
  · rw [htake, hdrop]

theorem word_append_inj {w w' rest rest' : List Char} (hw : ∀ c ∈ w, isWordChar c = true)
    (hw' : ∀ c ∈ w', isWordChar c = true) (hrest : ∀ c ∈ rest.head?, isWordChar c = false)
    (hrest' : ∀ c ∈ rest'.head?, isWordChar c = false) (h : w ++ rest = w' ++ rest') :
    w = w' ∧ rest = rest' := by
  obtain ⟨htake, hdrop⟩ := Decimal.takeWhile_dropWhile_append hw hrest
  obtain ⟨htake', hdrop'⟩ := Decimal.takeWhile_dropWhile_append hw' hrest'
  rw [h] at htake hdrop
  exact ⟨htake.symm.trans htake', hdrop.symm.trans hdrop'⟩

theorem isWordText_unaryName (fn : UnaryFn) : IsWordText fn.name.toList := by
  cases fn <;> exact ⟨List.all_eq_true.1 rfl, _, _, rfl, by decide⟩

theorem isWordText_binaryName (fn : BinaryFn) : IsWordText fn.name.toList := by
  cases fn <;> exact ⟨List.all_eq_true.1 rfl, _, _, rfl, by decide⟩

theorem isWordChar_of_isDigit {c : Char} (h : c.isDigit = true) : isWordChar c = true := by
  by_contra hword
  simp only [isWordChar, Bool.not_eq_true', Bool.not_eq_false, Bool.or_eq_true,
    decide_eq_true_eq] at hword
  obtain ((rfl | rfl) | rfl) | rfl := hword <;> cases h

theorem isWordText_index (index : Nat) : IsWordText ('$' :: Decimal.digits index) where
  chars := List.forall_mem_cons.2 ⟨rfl, fun c hc =>
    isWordChar_of_isDigit (Decimal.isDigit_of_mem_digits index c hc)⟩
  first := ⟨_, _, rfl, by decide⟩

theorem isWordText_number {x : Float} (h : Double.IsUnsigned x) : IsWordText (Decimal.chars x) := by
  rcases Decimal.chars_form h with hinf | ⟨c, cs, htext, hc, hcs⟩
  · rw [hinf]
    exact ⟨List.all_eq_true.1 rfl, _, _, rfl, by decide⟩
  · rw [htext]
    have hmark : ∀ d ∈ ['.', 'e', '+', '-'], isWordChar d = true :=
      List.all_eq_true.1 rfl
    refine ⟨List.forall_mem_cons.2 ⟨isWordChar_of_isDigit hc, fun d hd => ?_⟩, _, _, rfl, ?_⟩
    · exact (hcs d hd).elim isWordChar_of_isDigit (hmark d)
    · rintro rfl
      cases hc

theorem isWordChar_of_ended {rest : List Char} (h : Ended rest) :
    (∀ c ∈ rest.head?, isWordChar c = false) ∧ rest.head? ≠ some '(' := by
  have hends : ∀ c ∈ [' ', ')', ','], isWordChar c = false ∧ c ≠ '(' := by simp [isWordChar]
  exact ⟨fun c hc => (hends c (h c hc)).1, fun hc => (hends _ (h _ hc)).2 rfl⟩

theorem opening_of_ended {w : List Char} (hw : IsWordText w) {rest : List Char}
    (hrest : Ended rest) : Opening.of (w ++ rest) = .word w := by
  obtain ⟨hends, hparen⟩ := isWordChar_of_ended hrest
  rw [opening_of_word hw hends, if_neg hparen]

theorem opening_of_call {w : List Char} (hw : IsWordText w) (rest : List Char) :
    Opening.of (w ++ '(' :: rest) = .call w := by
  have hends : ∀ c ∈ ('(' :: rest).head?, isWordChar c = false := by
    intro c hc
    cases hc
    rfl
  rw [opening_of_word hw hends]
  exact if_pos rfl

/-- The text of a function, whatever stands behind it, begins like the function. -/
theorem Compiled.opening_of {f : Function} (hf : f.Compiled) {rest : List Char}
    (hrest : Ended rest) : Opening.of (f.chars ++ rest) = f.opening := by
  cases hf with
  | parameter => exact opening_of_ended ⟨List.all_eq_true.1 rfl, _, _, rfl, by decide⟩ hrest
  | ref index => exact opening_of_ended (isWordText_index index) hrest
  | const unsigned => exact opening_of_ended (isWordText_number unsigned) hrest
  | chain c later _ _ =>
      rw [chars_ofChain c _ later, opening_ofChain c _ later]
      rfl
  | neg inner => rfl
  | unary fn inner =>
      rw [chars, List.append_assoc]
      exact opening_of_call (isWordText_unaryName fn) _
  | binary fn left right =>
      rw [chars, List.append_assoc]
      exact opening_of_call (isWordText_binaryName fn) _

/-! Reading a text -/

/-- A text that a function begins is begun by no other one, if both end there. -/
def Begins (f : Function) : Prop :=
  ∀ (g : Function) (rest rest' : List Char), g.Compiled → Ended rest → Ended rest' →
    f.chars ++ rest = g.chars ++ rest' → f = g ∧ rest = rest'

theorem unaryName_inj {fn fn' : UnaryFn} (h : fn.name = fn'.name) : fn = fn' :=
  Option.some.inj (by rw [← ofName?_unaryName, ← ofName?_unaryName, h])

theorem binaryName_inj {fn fn' : BinaryFn} (h : fn.name = fn'.name) : fn = fn' :=
  Option.some.inj (by rw [← ofName?_binaryName, ← ofName?_binaryName, h])

theorem unaryName_ne_binaryName (fn : UnaryFn) (fn' : BinaryFn) : fn.name ≠ fn'.name := by
  have hnone : BinaryFn.ofName? fn.name = none := by cases fn <;> rfl
  intro h
  rw [h, ofName?_binaryName] at hnone
  cases hnone

theorem digits_inj {m n : Nat} (h : Decimal.digits m = Decimal.digits n) : m = n := by
  rw [← Decimal.ofDigits_digits m, h, Decimal.ofDigits_digits]

/-- The first character of a number. -/
theorem number_first {x : Float} (h : Double.IsUnsigned x) :
    ∃ c cs, Decimal.chars x = c :: cs ∧ c ≠ 't' ∧ c ≠ '$' := by
  rcases Decimal.chars_form h with hinf | ⟨c, cs, htext, hc, _⟩
  · exact ⟨_, _, hinf, by decide, by decide⟩
  · refine ⟨c, cs, htext, ?_, ?_⟩ <;>
    · rintro rfl
      cases hc

theorem Compiled.word_cases {f : Function} (hf : f.Compiled) {w : List Char}
    (h : f.opening = .word w) :
    f.chars = w ∧ (f = .parameter ∨ (∃ index, f = .ref index) ∨
      ∃ value, Double.IsUnsigned value ∧ f = .const value) := by
  cases hf with
  | parameter => exact ⟨Opening.word.inj h, .inl rfl⟩
  | ref index => exact ⟨Opening.word.inj h, .inr (.inl ⟨index, rfl⟩)⟩
  | const unsigned => exact ⟨Opening.word.inj h, .inr (.inr ⟨_, unsigned, rfl⟩)⟩
  | chain c later _ _ =>
      rw [opening_ofChain c _ later] at h
      cases h
  | neg _ => cases h
  | unary _ _ => cases h
  | binary _ _ _ => cases h

/-- Words with the same text are the same. -/
theorem Compiled.eq_of_word {f g : Function} (hf : f.Compiled) (hg : g.Compiled) {w : List Char}
    (hfw : f.opening = .word w) (hgw : g.opening = .word w) : f = g := by
  obtain ⟨hchars, hf⟩ := hf.word_cases hfw
  obtain ⟨hchars', hg⟩ := hg.word_cases hgw
  rw [← hchars'] at hchars
  rcases hf with rfl | ⟨index, rfl⟩ | ⟨value, hvalue, rfl⟩ <;>
    rcases hg with rfl | ⟨index', rfl⟩ | ⟨value', hvalue', rfl⟩
  · rfl
  · cases hchars
  · obtain ⟨c, cs, htext, ht, _⟩ := number_first hvalue'
    exact absurd (List.cons.inj (hchars.trans htext)).1.symm ht
  · cases hchars
  · rw [digits_inj (List.cons.inj hchars).2]
  · obtain ⟨c, cs, htext, _, hdollar⟩ := number_first hvalue'
    exact absurd (List.cons.inj (hchars.trans htext)).1.symm hdollar
  · obtain ⟨c, cs, htext, ht, _⟩ := number_first hvalue
    exact absurd (List.cons.inj (hchars.symm.trans htext)).1.symm ht
  · obtain ⟨c, cs, htext, _, hdollar⟩ := number_first hvalue
    exact absurd (List.cons.inj (hchars.symm.trans htext)).1.symm hdollar
  · rw [Decimal.eq_of_chars hvalue hvalue' hchars]

/-- The operator with a text, and the chain that it belongs to. -/
def operator? (text : String) : Option (Σ c : Chain, c.Op) :=
  if text = "^" then some ⟨.power, ()⟩
  else (AddOp.ofText? text).map (⟨.sum, ·⟩) <|> (MulOp.ofText? text).map (⟨.product, ·⟩)

theorem operator?_opText (c : Chain) (op : c.Op) : operator? (c.opText op) = some ⟨c, op⟩ := by
  cases c <;> cases op <;> rfl

/-- Operators are told apart by their texts, also those of different chains. -/
theorem opText_inj {c c' : Chain} {op : c.Op} {op' : c'.Op} (h : c.opText op = c'.opText op') :
    (⟨c, op⟩ : Σ c : Chain, c.Op) = ⟨c', op'⟩ :=
  Option.some.inj (by rw [← operator?_opText, ← operator?_opText, h])

theorem isWordChar_opText (c : Chain) (op : c.Op) :
    ∀ d ∈ (c.opText op).toList, isWordChar d = true := by
  cases c <;> cases op <;> exact List.all_eq_true.1 rfl

/-- The members of a chain behind the first one, each with the text of its operator. -/
def tagged (c : Chain) (members : List (c.Op × Function)) : List (String × Function) :=
  members.map fun p => (c.opText p.1, p.2)

theorem ofChain_eq_of_tagged {c c' : Chain} {first : Function} {members : List (c.Op × Function)}
    {members' : List (c'.Op × Function)} (hne : members ≠ [])
    (h : tagged c members = tagged c' members') :
    ofChain c first members = ofChain c' first members' := by
  obtain ⟨p, members, rfl⟩ := List.exists_cons_of_ne_nil hne
  obtain ⟨p', more, rfl, hp, _⟩ := List.map_eq_cons_iff.1 h.symm
  obtain rfl : c' = c := congrArg Sigma.fst (opText_inj (Prod.mk.inj hp).1)
  have hinj : Function.Injective fun p : c'.Op × Function => (c'.opText p.1, p.2) := by
    rintro ⟨op, f⟩ ⟨op', f'⟩ h
    obtain ⟨hop, hf⟩ := Prod.mk.inj h
    exact Prod.ext (eq_of_heq (Sigma.mk.inj (opText_inj hop)).2) hf
  rw [List.map_injective_iff.2 hinj h]

theorem isWordChar_head_space {rest : List Char} :
    ∀ c ∈ (' ' :: rest).head?, isWordChar c = false := by
  intro c hc
  cases hc
  rfl

theorem ended_later (c : Chain) (members : List (c.Op × Function)) (rest : List Char) :
    Ended (laterChars c members ++ ')' :: rest) := by
  intro d hd
  cases members with
  | nil =>
      cases hd
      decide
  | cons p members =>
      rw [laterChars_cons] at hd
      cases hd
      decide

/-- Texts that are the same begin in the same way. -/
theorem opening_eq {f g : Function} (hf : f.Compiled) (hg : g.Compiled) {rest rest' : List Char}
    (hrest : Ended rest) (hrest' : Ended rest') (h : f.chars ++ rest = g.chars ++ rest') :
    f.opening = g.opening := by
  rw [← hf.opening_of hrest, ← hg.opening_of hrest', h]

theorem begins_of_word {f : Function} (hf : f.Compiled) (hword : f.opening = .word f.chars) :
    f.Begins := by
  intro g rest rest' hg hrest hrest' h
  have hopening := opening_eq hf hg hrest hrest' h
  obtain rfl := hf.eq_of_word hg hword (hopening.symm.trans hword)
  exact ⟨rfl, List.append_cancel_left h⟩

theorem Compiled.chain_of_opening {f : Function} (hf : f.Compiled) (h : f.opening = .chain) :
    ∃ (c : Chain) (first : Function) (members : List (c.Op × Function)), members ≠ [] ∧
      first.Compiled ∧ (∀ p ∈ members, p.2.Compiled) ∧ f = ofChain c first members := by
  cases hf with
  | chain c later head tail => exact ⟨c, _, _, later, head, tail, rfl⟩
  | _ => cases h

theorem Compiled.neg_of_opening {f : Function} (hf : f.Compiled) (h : f.opening = .negation) :
    ∃ operand : Function, operand.Compiled ∧ f = .neg operand := by
  cases hf with
  | neg inner => exact ⟨_, inner, rfl⟩
  | chain c later _ _ =>
      rw [opening_ofChain c _ later] at h
      cases h
  | _ => cases h

theorem Compiled.unary_of_opening {f : Function} (hf : f.Compiled) {fn : UnaryFn}
    (h : f.opening = .call fn.name.toList) :
    ∃ operand : Function, operand.Compiled ∧ f = .unary fn operand := by
  cases hf with
  | unary fn' inner =>
      rw [unaryName_inj (String.toList_inj.1 (Opening.call.inj h))]
      exact ⟨_, inner, rfl⟩
  | binary fn' _ _ =>
      exact absurd (String.toList_inj.1 (Opening.call.inj h)).symm (unaryName_ne_binaryName fn fn')
  | chain c later _ _ =>
      rw [opening_ofChain c _ later] at h
      cases h
  | _ => cases h

theorem Compiled.binary_of_opening {f : Function} (hf : f.Compiled) {fn : BinaryFn}
    (h : f.opening = .call fn.name.toList) :
    ∃ first second : Function, first.Compiled ∧ second.Compiled ∧ f = .binary fn first second := by
  cases hf with
  | unary fn' _ =>
      exact absurd (String.toList_inj.1 (Opening.call.inj h)) (unaryName_ne_binaryName fn' fn)
  | binary fn' left right =>
      rw [binaryName_inj (String.toList_inj.1 (Opening.call.inj h))]
      exact ⟨_, _, left, right, rfl⟩
  | chain c later _ _ =>
      rw [opening_ofChain c _ later] at h
      cases h
  | _ => cases h

theorem ended_paren (rest : List Char) : Ended (')' :: rest) := by
  intro c hc
  cases hc
  decide

theorem ended_comma (rest : List Char) : Ended (',' :: rest) := by
  intro c hc
  cases hc
  decide

/-- The members of a chain are read one after the other, up to the parenthesis that closes it. -/
theorem tagged_eq_of_chars {c c' : Chain} {members : List (c.Op × Function)}
    {members' : List (c'.Op × Function)} (h : ∀ p ∈ members, p.2.Begins)
    (h' : ∀ p ∈ members', p.2.Compiled) {rest rest' : List Char}
    (heq : laterChars c members ++ ')' :: rest = laterChars c' members' ++ ')' :: rest') :
    tagged c members = tagged c' members' ∧ rest = rest' := by
  induction members generalizing members' with
  | nil =>
      cases members' with
      | nil => exact ⟨rfl, (List.cons.inj heq).2⟩
      | cons p' members' =>
          rw [laterChars_cons] at heq
          cases (List.cons.inj heq).1
  | cons p members ih =>
      cases members' with
      | nil =>
          rw [laterChars_cons] at heq
          cases (List.cons.inj heq).1
      | cons p' members' =>
          obtain ⟨op, f⟩ := p
          obtain ⟨op', f'⟩ := p'
          rw [List.forall_mem_cons] at h h'
          rw [laterChars_cons, laterChars_cons] at heq
          simp only [List.cons_append, List.append_assoc] at heq
          obtain ⟨hop, heq⟩ := word_append_inj (isWordChar_opText c op) (isWordChar_opText c' op')
            isWordChar_head_space isWordChar_head_space (List.cons.inj heq).2
          obtain ⟨rfl, hlater⟩ := h.1 _ _ _ h'.1 (ended_later c members rest)
            (ended_later c' members' rest') (List.cons.inj heq).2
          obtain ⟨hmembers, hrest⟩ := ih h.2 h'.2 hlater
          rw [tagged, tagged, List.map_cons, List.map_cons, String.toList_inj.1 hop]
          exact ⟨congrArg _ hmembers, hrest⟩

/-- No text of a compiled function begins that of another one. Both have the same opening, so they
have the same form, and their operands are read one after the other. -/
theorem Compiled.begins {f : Function} (hf : f.Compiled) : f.Begins := by
  induction hf with
  | parameter => exact begins_of_word .parameter rfl
  | ref index => exact begins_of_word (.ref index) rfl
  | const unsigned => exact begins_of_word (.const unsigned) rfl
  | @chain c first members later head tail ihFirst ihMembers =>
      intro g rest rest' hg hrest hrest' h
      have hopening := opening_eq (.chain c later head tail) hg hrest hrest' h
      rw [opening_ofChain c first later] at hopening
      obtain ⟨c', first', members', later', head', tail', rfl⟩ := hg.chain_of_opening hopening.symm
      rw [chars_ofChain c first later, chars_ofChain c' first' later'] at h
      simp only [List.cons_append, List.append_assoc, List.nil_append] at h
      obtain ⟨rfl, hlater⟩ := ihFirst _ _ _ head' (ended_later c members rest)
        (ended_later c' members' rest') (List.cons.inj h).2
      obtain ⟨htagged, hrest⟩ := tagged_eq_of_chars ihMembers tail' hlater
      exact ⟨ofChain_eq_of_tagged later htagged, hrest⟩
  | @neg operand inner ih =>
      intro g rest rest' hg hrest hrest' h
      have hopening := opening_eq (.neg inner) hg hrest hrest' h
      obtain ⟨operand', inner', rfl⟩ := hg.neg_of_opening hopening.symm
      obtain ⟨rfl, hsame⟩ := ih _ _ _ inner' hrest hrest' (List.cons.inj h).2
      exact ⟨rfl, hsame⟩
  | @unary fn operand inner ih =>
      intro g rest rest' hg hrest hrest' h
      have hopening := opening_eq (.unary fn inner) hg hrest hrest' h
      obtain ⟨operand', inner', rfl⟩ := hg.unary_of_opening hopening.symm
      simp only [chars, List.append_assoc, List.cons_append, List.nil_append] at h
      have hinner := (List.cons.inj (List.append_cancel_left h)).2
      obtain ⟨rfl, hsame⟩ := ih _ _ _ inner' (ended_paren rest) (ended_paren rest') hinner
      exact ⟨rfl, (List.cons.inj hsame).2⟩
  | @binary fn first second left right ihLeft ihRight =>
      intro g rest rest' hg hrest hrest' h
      have hopening := opening_eq (.binary fn left right) hg hrest hrest' h
      obtain ⟨first', second', left', right', rfl⟩ := hg.binary_of_opening hopening.symm
      simp only [chars, List.append_assoc, List.cons_append, List.nil_append] at h
      have hargs := (List.cons.inj (List.append_cancel_left h)).2
      obtain ⟨rfl, hsecond⟩ := ihLeft _ _ _ left' (ended_comma _) (ended_comma _) hargs
      have hinner := (List.cons.inj (List.cons.inj hsecond).2).2
      obtain ⟨rfl, hsame⟩ := ihRight _ _ _ right' (ended_paren rest) (ended_paren rest') hinner
      exact ⟨rfl, (List.cons.inj hsame).2⟩

/-! Trees -/

theorem compiled_ofChain (c : Chain) {f : Function} {fs : List (c.Op × Function)}
    (hf : f.Compiled) (hfs : ∀ p ∈ fs, p.2.Compiled) : (ofChain c f fs).Compiled := by
  cases fs with
  | nil => cases c <;> exact hf
  | cons p fs => exact .chain c (List.cons_ne_nil p fs) hf hfs

theorem compiled_ofName {scope : Scope} {name : Placed String} {f : Function}
    (h : ofName scope name = .ok f) : f.Compiled := by
  unfold ofName at h
  split at h
  · rename_i value hvalue
    cases h
    exact .const (isUnsigned_constant hvalue)
  · split at h
    · cases h
      exact .ref _
    · cases h
      exact .parameter
    · cases h

-- one case for each form of tree: constants come from literals and names
mutual

theorem compiled_ofTree {scope : Scope} {r : Rule} (tree : Tree r) {f : Function}
    (h : ofTree scope tree = .ok f) : f.Compiled := by
  match tree, h with
  | .chain first rest, h =>
      simp only [ofTree] at h
      obtain ⟨g, hg, h⟩ := Outcome.bind_eq_ok_iff.1 h
      obtain ⟨gs, hgs, h⟩ := Outcome.bind_eq_ok_iff.1 h
      cases h
      exact compiled_ofChain _ (compiled_ofTree first hg) (compiled_ofTail rest hgs)
  | .signed negated operand, h =>
      simp only [ofTree] at h
      obtain ⟨g, hg, h⟩ := Outcome.bind_eq_ok_iff.1 h
      have hinner := compiled_ofTree operand hg
      cases h
      cases negated with
      | false => exact hinner
      | true => exact .neg hinner
  | .callOne name argument, h =>
      simp only [ofTree] at h
      split at h
      · cases h
      · rename_i fn _
        obtain ⟨g, hg, h⟩ := Outcome.bind_eq_ok_iff.1 h
        cases h
        exact .unary fn (compiled_ofTree argument hg)
  | .callTwo name first second, h =>
      simp only [ofTree] at h
      split at h
      · cases h
      · rename_i fn _
        obtain ⟨g, hg, h⟩ := Outcome.bind_eq_ok_iff.1 h
        obtain ⟨g', hg', h⟩ := Outcome.bind_eq_ok_iff.1 h
        cases h
        exact .binary fn (compiled_ofTree first hg) (compiled_ofTree second hg')
  | .plain primary, h =>
      simp only [ofTree] at h
      exact compiled_ofTree primary h
  | .group inner, h =>
      simp only [ofTree] at h
      exact compiled_ofTree inner h
  | .variable name, h =>
      simp only [ofTree] at h
      exact compiled_ofName h
  | .number literal, h =>
      simp only [ofTree] at h
      cases h
      exact .const (Decimal.isUnsigned_readLiteral _)

theorem compiled_ofTail {scope : Scope} {c : Chain} (tail : Tail c)
    {fs : List (c.Op × Function)} (h : ofTail scope tail = .ok fs) : ∀ p ∈ fs, p.2.Compiled := by
  match tail, h with
  | .done, h =>
      cases h
      intro p hp
      cases hp
  | .step op operand rest, h =>
      simp only [ofTail] at h
      obtain ⟨g, hg, h⟩ := Outcome.bind_eq_ok_iff.1 h
      obtain ⟨gs, hgs, h⟩ := Outcome.bind_eq_ok_iff.1 h
      cases h
      rw [List.forall_mem_cons]
      exact ⟨compiled_ofTree operand hg, compiled_ofTail rest hgs⟩

end

theorem compiled_ofAssignments {scope last : Scope} {as : List Assignment} {fs : List Function}
    (h : ofAssignments scope as = .ok (fs, last)) : ∀ f ∈ fs, f.Compiled := by
  induction as generalizing scope fs with
  | nil =>
      cases h
      exact List.forall_mem_nil _
  | cons a as ih =>
      simp only [ofAssignments] at h
      obtain ⟨⟨g, next⟩, hg, h⟩ := Outcome.bind_eq_ok_iff.1 h
      obtain ⟨⟨gs, last'⟩, hgs, h⟩ := Outcome.bind_eq_ok_iff.1 h
      cases h
      unfold ofAssignment at hg
      split at hg
      · cases hg
      · split at hg
        · cases hg
        · obtain ⟨f, hf, hg⟩ := Outcome.bind_eq_ok_iff.1 hg
          cases hg
          exact List.forall_mem_cons.2 ⟨compiled_ofTree a.value hf, ih hgs⟩

/-- What compiling may return: the function of an expression, in whatever scope, or one of those of
a list of assignments. -/
inductive Returned (f : Function) : Prop
  | expr {scope : Scope} {e : Expr} (compiled : ofTree scope e = .ok f) : Returned f
  | assignment {scope last : Scope} {as : List Assignment} {fs : List Function}
      (compiled : ofAssignments scope as = .ok (fs, last)) (mem : f ∈ fs) : Returned f

theorem Returned.compiled {f : Function} (h : f.Returned) : f.Compiled := by
  cases h with
  | expr compiled => exact compiled_ofTree _ compiled
  | assignment compiled mem => exact compiled_ofAssignments compiled f mem

end Function

/-! Sources -/

theorem returned_compileExpr {source : String} {scope : Scope} {axis : Option String}
    {f : Function} (h : compileExpr source scope axis = .ok f) : f.Returned := by
  obtain ⟨tree, _, h⟩ := Outcome.bind_eq_ok_iff.1 h
  exact .expr (Outcome.mapError_eq_ok_iff.1 h)

namespace Curve

theorem toList_text (c : Curve) :
    c.text.toList = '(' :: (c.x.chars ++ ',' :: ' ' :: (c.y.chars ++ [')'])) := by
  simp [text, Function.text]

/-- A text that begins with that of a curve is begun by no other curve. -/
theorem eq_of_text {c c' : Curve} (hx : c.x.Compiled) (hy : c.y.Compiled) (hx' : c'.x.Compiled)
    (hy' : c'.y.Compiled) {rest rest' : List Char}
    (h : c.text.toList ++ rest = c'.text.toList ++ rest') :
    c.x = c'.x ∧ c.y = c'.y ∧ rest = rest' := by
  rw [toList_text, toList_text] at h
  simp only [List.cons_append, List.append_assoc, List.nil_append] at h
  obtain ⟨hxs, hsecond⟩ := hx.begins _ _ _ hx' (Function.ended_comma _) (Function.ended_comma _)
    (List.cons.inj h).2
  obtain ⟨hys, hrest⟩ := hy.begins _ _ _ hy' (Function.ended_paren _) (Function.ended_paren _)
    (List.cons.inj (List.cons.inj hsecond).2).2
  exact ⟨hxs, hys, (List.cons.inj hrest).2⟩

end Curve

/-- What is recorded last of a submission that is accepted. -/
theorem Submission.getLast?_log {s : Sources} {c : Curve} (h : s.compile = .ok c) :
    (submit s).log.getLast? = some ⟨.debug, "Compiled curve " ++ c.text ++ " with " ++
      toString c.assigns.length ++ " assignment(s)"⟩ := by
  rw [log, submit, h]
  rfl

theorem Sources.compiled_of_compile {s : Sources} {c : Curve} (h : s.compile = .ok c) :
    c.x.Compiled ∧ c.y.Compiled := by
  obtain ⟨scope, -, -, hx, hy⟩ := parts_of_compile h
  exact ⟨(returned_compileExpr hx).compiled, (returned_compileExpr hy).compiled⟩

/-- The text of a compiled function determines it. So the text of a curve determines its two
functions, and the last record of an accepted submission determines the number of assignments
too. -/
theorem text_determines :
    (∀ f g : Function, f.Returned → g.Returned → f.text = g.text → f = g) ∧
    ∀ (s s' : Sources) (c c' : Curve), s.compile = .ok c → s'.compile = .ok c' →
      (c.text = c'.text → c.x = c'.x ∧ c.y = c'.y) ∧
      ((Submission.submit s).log.getLast? = (Submission.submit s').log.getLast? →
        c.x = c'.x ∧ c.y = c'.y ∧ c.assigns.length = c'.assigns.length) := by
  constructor
  · intro f g hf hg h
    have hend : Function.Ended [] := by
      intro c hc
      cases hc
    exact (hf.compiled.begins g [] [] hg.compiled hend hend
      (congrArg (· ++ []) (String.ofList_injective h))).1
  · intro s s' c c' hc hc'
    obtain ⟨hx, hy⟩ := Sources.compiled_of_compile hc
    obtain ⟨hx', hy'⟩ := Sources.compiled_of_compile hc'
    constructor
    · intro h
      obtain ⟨hxs, hys, -⟩ := @Curve.eq_of_text c c' hx hy hx' hy' [] [] (by rw [h])
      exact ⟨hxs, hys⟩
    · intro h
      rw [Submission.getLast?_log hc, Submission.getLast?_log hc'] at h
      have hmessage := congrArg String.toList (LogRecord.mk.inj (Option.some.inj h)).2
      simp only [String.toList_append, List.append_assoc] at hmessage
      obtain ⟨hxs, hys, hcount⟩ := Curve.eq_of_text hx hy hx' hy' (List.append_cancel_left hmessage)
      have hnumber := List.append_cancel_right (List.append_cancel_left hcount)
      exact ⟨hxs, hys, Nat.repr_injective (String.toList_inj.1 hnumber)⟩

theorem text_determines_difference :
    ∃ f g c c', compileExpr "t - -2" .initial none = .ok f ∧
      compileExpr "(t)-(-(2.0))" .initial none = .ok g ∧ f = g ∧
      Sources.compile ⟨"t - -2", "t ^ t", ""⟩ = .ok c ∧
      Sources.compile ⟨"(t)-(-(2.0))", "(t ^ (t))", "u = t"⟩ = .ok c' ∧ c.x = c'.x ∧ c.y = c'.y := by
  have hf : (compileExpr "t - -2" .initial none).toOption.map Function.text =
      some "(t - -2.0)" := by
    decide +kernel
  have hg : (compileExpr "(t)-(-(2.0))" .initial none).toOption.map Function.text =
      some "(t - -2.0)" := by
    decide +kernel
  have hc : (Sources.compile ⟨"t - -2", "t ^ t", ""⟩).toOption.map Curve.text =
      some "((t - -2.0), (t ^ t))" := by
    decide +kernel
  have hc' : (Sources.compile ⟨"(t)-(-(2.0))", "(t ^ (t))", "u = t"⟩).toOption.map Curve.text =
      some "((t - -2.0), (t ^ t))" := by
    decide +kernel
  obtain ⟨f, hf, hftext⟩ := Outcome.map_toOption_eq_some_iff.1 hf
  obtain ⟨g, hg, hgtext⟩ := Outcome.map_toOption_eq_some_iff.1 hg
  obtain ⟨c, hc, htext⟩ := Outcome.map_toOption_eq_some_iff.1 hc
  obtain ⟨c', hc', htext'⟩ := Outcome.map_toOption_eq_some_iff.1 hc'
  have hsame := text_determines.1 f g (returned_compileExpr hf) (returned_compileExpr hg)
    (hftext.trans hgtext.symm)
  obtain ⟨hx, hy⟩ := (text_determines.2 _ _ c c' hc hc').1 (htext.trans htext'.symm)
  exact ⟨f, g, c, c', hf, hg, hsame, hc, hc', hx, hy⟩

end FlightCurve

import FlightCurve.Proofs.CurveExpression

/-!
Functions as tokens. An operand of a function is a single word, or stands in parentheses; beyond
that, parentheses may stand around an operand or the whole as often as one likes. What is written so
is read back as the function that was written.

The relation has one constructor for each form of function, and the tree that is read back is built
along it: operands become primary expressions, and every rule derives what a tighter one does.
-/

namespace FlightCurve

/-- In the scope each of the names stands for its place among them, and the parameter for itself. -/
structure Scope.Resolves (scope : Scope) (names : List String) : Prop where
  parameter : scope.visible? parameterName = some none
  index : ∀ (i : Nat) (name : String), names[i]? = some name →
    constant? name = none ∧ scope.visible? name = some (some i)

namespace Function

/-! Writing functions -/

/-- A function that is a single word: the parameter, the name of an index, or a literal. -/
inductive IsWord (names : List String) : Function → Token → Prop
  | parameter {word : Token} (ident : word.kind = .ident) (text : word.text = parameterName) :
      IsWord names .parameter word
  | ref {index : Nat} {word : Token} (ident : word.kind = .ident)
      (named : names[index]? = some word.text) : IsWord names (.ref index) word
  | const {value : Float} {word : Token} (number : word.kind = .number)
      (reads : Decimal.readLiteral word.text.toList = value) : IsWord names (.const value) word

/-- What is written: a function on its own, an operand of a function, or the members of a chain that
follow the first one. -/
inductive Piece
  | whole (f : Function)
  | operand (f : Function)
  | later (c : Chain) (members : List (c.Op × Function))

/-- The tokens that a piece is written as. -/
inductive Surface (names : List String) : Piece → List Token → Prop
  | word {f : Function} {tok : Token} (word : IsWord names f tok) :
      Surface names (.operand f) [tok]
  | group {f : Function} {ts : List Token} {left right : Token} (lparen : left.kind = .lparen)
      (inner : Surface names (.whole f) ts) (rparen : right.kind = .rparen) :
      Surface names (.operand f) (left :: (ts ++ [right]))
  | single {f : Function} {ts : List Token} (operand : Surface names (.operand f) ts) :
      Surface names (.whole f) ts
  | sum {first : Function} {next : AddOp × Function} {terms : List (AddOp × Function)}
      {ts us : List Token} (head : Surface names (.operand first) ts)
      (tail : Surface names (.later .sum (next :: terms)) us) :
      Surface names (.whole (.sum ((.plus, first) :: next :: terms))) (ts ++ us)
  | product {first : Function} {next : MulOp × Function} {factors : List (MulOp × Function)}
      {ts us : List Token} (head : Surface names (.operand first) ts)
      (tail : Surface names (.later .product (next :: factors)) us) :
      Surface names (.whole (.product ((.times, first) :: next :: factors))) (ts ++ us)
  | power {first next : Function} {bases : List Function} {ts us : List Token}
      (head : Surface names (.operand first) ts)
      (tail : Surface names (.later .power ((next :: bases).map ((), ·))) us) :
      Surface names (.whole (.power (first :: next :: bases))) (ts ++ us)
  | neg {f : Function} {sign : Token} {ts : List Token} (minus : sign.kind = .minus)
      (operand : Surface names (.operand f) ts) : Surface names (.whole (.neg f)) (sign :: ts)
  | unary {fn : UnaryFn} {f : Function} {name : Token} {ts : List Token}
      (ident : name.kind = .ident) (called : name.text = fn.name)
      (operand : Surface names (.operand f) ts) :
      Surface names (.whole (.unary fn f)) (name :: ts)
  | binary {fn : BinaryFn} {f g : Function} {name : Token} {ts us : List Token}
      (ident : name.kind = .ident) (called : name.text = fn.name)
      (first : Surface names (.operand f) ts) (second : Surface names (.operand g) us) :
      Surface names (.whole (.binary fn f g)) (name :: (ts ++ us))
  | done {c : Chain} : Surface names (.later c []) []
  | step {c : Chain} {op : c.Op} {f : Function} {members : List (c.Op × Function)} {tok : Token}
      {ts us : List Token} (between : tok.kind = c.opKind op)
      (operand : Surface names (.operand f) ts) (rest : Surface names (.later c members) us) :
      Surface names (.later c ((op, f) :: members)) (tok :: (ts ++ us))

/-! Reading functions back -/

/-- A tree of the rule is read from the tokens, and it denotes the function. -/
def Reads (scope : Scope) (r : Rule) (f : Function) (ts : List Token) : Prop :=
  ∃ tree : Tree r, Fit tree.flatten ts ∧ ofTree scope tree = .ok f

/-- The same for the operators and operands that follow the first one of a chain. -/
def ReadsLater (scope : Scope) (c : Chain) (members : List (c.Op × Function)) (ts : List Token) :
    Prop :=
  ∃ tail : Tail c, Fit tail.flatten ts ∧ ofTail scope tail = .ok members

section Reads

variable {scope : Scope} {f g : Function} {ts us : List Token}

theorem Reads.chain {c : Chain} {members : List (c.Op × Function)}
    (hfirst : Reads scope c.operand f ts) (hrest : ReadsLater scope c members us) :
    Reads scope (.chain c) (ofChain c f members) (ts ++ us) := by
  obtain ⟨first, hfit, hf⟩ := hfirst
  obtain ⟨rest, hfit', hmembers⟩ := hrest
  refine ⟨.chain first rest, List.rel_append hfit hfit', ?_⟩
  rw [ofTree, hf, hmembers]
  rfl

theorem readsLater_nil (scope : Scope) (c : Chain) : ReadsLater scope c [] [] :=
  ⟨.done, .nil, rfl⟩

theorem ReadsLater.cons {c : Chain} {op : c.Op} {members : List (c.Op × Function)} {tok : Token}
    (hspelled : tok.Spelled) (hkind : tok.kind = c.opKind op)
    (hoperand : Reads scope c.operand f ts) (hrest : ReadsLater scope c members us) :
    ReadsLater scope c ((op, f) :: members) (tok :: (ts ++ us)) := by
  obtain ⟨operand, hfit, hf⟩ := hoperand
  obtain ⟨rest, hfit', hmembers⟩ := hrest
  refine ⟨.step ⟨op, tok.position⟩ operand rest, ?_, ?_⟩
  · exact .cons (Leaf.fits_operator hspelled (hkind ▸ c.op?_opKind op)) (List.rel_append hfit hfit')
  · rw [ofTail, hf, hmembers]
    rfl

/-- A chain of one operand is that operand. -/
theorem Reads.single {c : Chain} (h : Reads scope c.operand f ts) :
    Reads scope (.chain c) f ts := by
  have hchain := h.chain (readsLater_nil scope c)
  rw [List.append_nil] at hchain
  cases c <;> exact hchain

theorem Reads.unsigned (h : Reads scope (.chain .power) f ts) : Reads scope .signed f ts := by
  obtain ⟨tree, hfit, hf⟩ := h
  refine ⟨.signed false tree, hfit, ?_⟩
  rw [ofTree, hf]
  rfl

theorem Reads.negated {sign : Token} (hspelled : sign.Spelled) (hkind : sign.kind = .minus)
    (h : Reads scope (.chain .power) f ts) : Reads scope .signed (.neg f) (sign :: ts) := by
  obtain ⟨tree, hfit, hf⟩ := h
  refine ⟨.signed true tree, .cons (Leaf.fits_sign hspelled hkind) hfit, ?_⟩
  rw [ofTree, hf]
  rfl

theorem Reads.plain (h : Reads scope .primary f ts) : Reads scope .call f ts := by
  obtain ⟨tree, hfit, hf⟩ := h
  refine ⟨.plain tree, hfit, ?_⟩
  rw [ofTree, hf]

theorem Reads.group {left right : Token} (hleft : left.Spelled) (hlparen : left.kind = .lparen)
    (hright : right.Spelled) (hrparen : right.kind = .rparen)
    (h : Reads scope (.chain .sum) f ts) :
    Reads scope .primary f (left :: (ts ++ [right])) := by
  obtain ⟨tree, hfit, hf⟩ := h
  refine ⟨.group tree, ?_, ?_⟩
  · exact .cons (Leaf.fits_left hleft hlparen)
      (List.rel_append hfit (.cons (Leaf.fits_right hright hrparen) .nil))
  · rw [ofTree, hf]

theorem ofName?_unaryName (fn : UnaryFn) : UnaryFn.ofName? fn.name = some fn := by
  cases fn <;> decide

theorem ofName?_binaryName (fn : BinaryFn) : BinaryFn.ofName? fn.name = some fn := by
  cases fn <;> decide

theorem Reads.callOne {fn : UnaryFn} {name : Token} (hident : name.kind = .ident)
    (hname : name.text = fn.name) (h : Reads scope .primary f ts) :
    Reads scope .call (.unary fn f) (name :: ts) := by
  obtain ⟨tree, hfit, hf⟩ := h
  refine ⟨.callOne name.placed tree, .cons (Leaf.fits_placed hident) hfit, ?_⟩
  rw [ofTree, Token.placed, hname, ofName?_unaryName]
  simp only [hf]
  rfl

theorem Reads.callTwo {fn : BinaryFn} {name : Token} (hident : name.kind = .ident)
    (hname : name.text = fn.name) (hf : Reads scope .primary f ts)
    (hg : Reads scope .primary g us) :
    Reads scope .call (.binary fn f g) (name :: (ts ++ us)) := by
  obtain ⟨first, hfit, hf⟩ := hf
  obtain ⟨second, hfit', hg⟩ := hg
  refine ⟨.callTwo name.placed first second,
    .cons (Leaf.fits_placed hident) (List.rel_append hfit hfit'), ?_⟩
  rw [ofTree, Token.placed, hname, ofName?_binaryName]
  simp only [hf, hg]
  rfl

/-- A primary expression is an operand of every chain. -/
theorem Reads.operand (h : Reads scope .primary f ts) (c : Chain) :
    Reads scope c.operand f ts := by
  cases c with
  | sum => exact h.plain.single.unsigned.single
  | product => exact h.plain.single.unsigned
  | power => exact h.plain

theorem Reads.word {names : List String} {tok : Token} (hscope : scope.Resolves names)
    (h : IsWord names f tok) : Reads scope .primary f [tok] := by
  cases h with
  | parameter ident text =>
      refine ⟨.variable tok.placed, .cons (Leaf.fits_placed ident) .nil, ?_⟩
      rw [ofTree, ofName, Token.placed, text, constant?_parameterName]
      simp only [hscope.parameter]
  | ref ident named =>
      obtain ⟨hconstant, hvisible⟩ := hscope.index _ _ named
      refine ⟨.variable tok.placed, .cons (Leaf.fits_placed ident) .nil, ?_⟩
      rw [ofTree, ofName, Token.placed, hconstant]
      simp only [hvisible]
  | const number reads =>
      refine ⟨.number tok.placed, .cons (Leaf.fits_placed number) .nil, ?_⟩
      rw [ofTree, Token.placed, reads]

end Reads

/-- What it means to read a piece back: an operand is a primary expression, a function on its own is
an expression. -/
def Piece.ReadBack (scope : Scope) : Piece → List Token → Prop
  | .whole f, ts => Reads scope (.chain .sum) f ts
  | .operand f, ts => Reads scope .primary f ts
  | .later c members, ts => ReadsLater scope c members ts

/-- Whatever is written is read back. -/
theorem Surface.readBack {scope : Scope} {names : List String} (hscope : scope.Resolves names)
    {piece : Piece} {ts : List Token} (h : Surface names piece ts)
    (hspelled : ∀ tok ∈ ts, tok.Spelled) : piece.ReadBack scope ts := by
  -- an operand is read by the tightest rule, and raised to the rule that its place asks for
  induction h with
  | word word => exact .word hscope word
  | group lparen _ rparen ih =>
      rw [List.forall_mem_cons, List.forall_mem_append, List.forall_mem_singleton] at hspelled
      obtain ⟨hleft, hinner, hright⟩ := hspelled
      exact (ih hinner).group hleft lparen hright rparen
  | single _ ih => exact ((ih hspelled).operand .sum).single
  | sum _ _ ihHead ihTail =>
      rw [List.forall_mem_append] at hspelled
      exact ((ihHead hspelled.1).operand .sum).chain (ihTail hspelled.2)
  | product _ _ ihHead ihTail =>
      rw [List.forall_mem_append] at hspelled
      have hchain := ((ihHead hspelled.1).operand .product).chain (ihTail hspelled.2)
      exact hchain.single
  | @power first next bases _ _ _ _ ihHead ihTail =>
      rw [List.forall_mem_append] at hspelled
      have hchain := ((ihHead hspelled.1).operand .power).chain (ihTail hspelled.2)
      have hbases : ofChain .power first ((next :: bases).map ((), ·)) =
          .power (first :: next :: bases) := by
        change Function.power (first :: ((next :: bases).map ((), ·)).map (·.2)) = _
        rw [List.map_map]
        exact congrArg (fun fs => Function.power (first :: fs)) (List.map_id _)
      rw [hbases] at hchain
      exact hchain.unsigned.single.single
  | neg minus _ ih =>
      rw [List.forall_mem_cons] at hspelled
      have hoperand := ((ih hspelled.2).operand .power).single
      exact (hoperand.negated hspelled.1 minus).single.single
  | unary ident called _ ih =>
      rw [List.forall_mem_cons] at hspelled
      have hcall := (ih hspelled.2).callOne ident called
      exact hcall.single.unsigned.single.single
  | binary ident called _ _ ihFirst ihSecond =>
      rw [List.forall_mem_cons, List.forall_mem_append] at hspelled
      have hcall := (ihFirst hspelled.2.1).callTwo ident called (ihSecond hspelled.2.2)
      exact hcall.single.unsigned.single.single
  | done => exact readsLater_nil scope _
  | step between _ _ ihOperand ihRest =>
      rw [List.forall_mem_cons, List.forall_mem_append] at hspelled
      exact ReadsLater.cons hspelled.1 between ((ihOperand hspelled.2.1).operand _)
        (ihRest hspelled.2.2)

/-- No line feed is written. -/
theorem Surface.withoutNewlines {scope : Scope} {names : List String}
    (hscope : scope.Resolves names) {f : Function} {ts : List Token}
    (h : Surface names (.whole f) ts) (hspelled : ∀ tok ∈ ts, tok.Spelled) :
    withoutNewlines ts = ts := by
  obtain ⟨tree, hfit, _⟩ := h.readBack hscope hspelled
  refine List.filter_eq_self.2 fun tok htok => ?_
  simpa using ((tree.derives_of_fit hfit).kind_ne tok htok).2.1

end Function

/-! Sources -/

/-- A source that a function is written as compiles to that function, if its parentheses do not nest
too deep. -/
theorem compileExpr_of_surface {source : String} {s : Scanned} (hs : scan source = .ok s)
    {scope : Scope} {names : List String} (hscope : scope.Resolves names) {f : Function}
    (h : Function.Surface names (.whole f) (withoutNewlines s.tokens))
    (hnesting : mostOpen 0 (withoutNewlines s.tokens) ≤ maxNesting) (axis : Option String) :
    compileExpr source scope axis = .ok f := by
  obtain ⟨e, hfit, hf⟩ := h.readBack hscope (spelled_withoutNewlines hs)
  have hcurve : IsCurveExpr axis (withoutNewlines s.tokens) (withoutNewlines s.tokens) :=
    ⟨⟨[], rfl, .inl rfl⟩, e.derives_of_fit hfit, hnesting⟩
  have hparse := (parseExpr_eq_ok_iff hs).2 ⟨_, hcurve, hfit⟩
  rw [compileExpr, hparse]
  exact Outcome.mapError_eq_ok_iff.2 hf

end FlightCurve

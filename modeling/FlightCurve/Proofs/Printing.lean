import FlightCurve.Proofs.Naming
import FlightCurve.Proofs.Surface
import FlightCurve.Proofs.WellScoped

/-!
Printing functions as sources. Indices are printed as their names, constants as literals, and
composite operands in parentheses.

The main statement is that a source that is printed from a function compiles to that function again,
and that further parentheses around operands or the whole change nothing.
-/

namespace FlightCurve

namespace Function

/-! Printing -/

/-- Whether the function is printed as a single word. -/
def isWord : Function → Bool
  | .parameter | .ref _ | .const _ => true
  | _ => false

def enclose (lexemes : List (Kind × String)) : List (Kind × String) :=
  (.lparen, "(") :: (lexemes ++ [(.rparen, ")")])

/-- The lexemes of an operand: in parentheses, unless it is a single word. -/
def asOperand (f : Function) (lexemes : List (Kind × String)) : List (Kind × String) :=
  if f.isWord then lexemes else enclose lexemes

section Lexemes

variable (names : List String) (literal : Float → String)

mutual

/-- What a function is printed as, word by word. -/
def lexemes : Function → List (Kind × String)
  | .parameter => [(.ident, parameterName)]
  | .ref index => [(.ident, names[index]?.getD "")]
  | .const value => [(.number, literal value)]
  | .sum terms => (lexemesOfTerms terms).tail
  | .product factors => (lexemesOfFactors factors).tail
  | .power bases => (lexemesOfBases bases).tail
  | .neg operand => (.minus, "-") :: operand.asOperand operand.lexemes
  | .unary fn operand => (.ident, fn.name) :: operand.asOperand operand.lexemes
  | .binary fn first second =>
      (.ident, fn.name) :: (first.asOperand first.lexemes ++ second.asOperand second.lexemes)

/-- The terms of a sum, each with its operator before it. -/
def lexemesOfTerms : List (AddOp × Function) → List (Kind × String)
  | [] => []
  | (op, term) :: rest =>
      (Chain.sum.opKind op, op.text) :: (term.asOperand term.lexemes ++ lexemesOfTerms rest)

def lexemesOfFactors : List (MulOp × Function) → List (Kind × String)
  | [] => []
  | (op, factor) :: rest =>
      (Chain.product.opKind op, op.text) ::
        (factor.asOperand factor.lexemes ++ lexemesOfFactors rest)

def lexemesOfBases : List Function → List (Kind × String)
  | [] => []
  | base :: rest => (.caret, "^") :: (base.asOperand base.lexemes ++ lexemesOfBases rest)

end

/-- The members of a chain, each with its operator before it. -/
def lexemesOfMembers (c : Chain) (members : List (c.Op × Function)) : List (Kind × String) :=
  members.flatMap fun (op, f) =>
    (c.opKind op, c.opText op) :: f.asOperand (lexemes names literal f)

theorem lexemesOfTerms_eq (terms : List (AddOp × Function)) :
    lexemesOfTerms names literal terms = lexemesOfMembers names literal .sum terms := by
  induction terms with
  | nil => rfl
  | cons p terms ih =>
      rw [lexemesOfTerms, ih, lexemesOfMembers, lexemesOfMembers, List.flatMap_cons]
      rfl

theorem lexemesOfFactors_eq (factors : List (MulOp × Function)) :
    lexemesOfFactors names literal factors = lexemesOfMembers names literal .product factors := by
  induction factors with
  | nil => rfl
  | cons p factors ih =>
      rw [lexemesOfFactors, ih, lexemesOfMembers, lexemesOfMembers, List.flatMap_cons]
      rfl

theorem lexemesOfBases_eq (bases : List Function) :
    lexemesOfBases names literal bases =
      lexemesOfMembers names literal .power (bases.map ((), ·)) := by
  induction bases with
  | nil => rfl
  | cons base bases ih =>
      rw [lexemesOfBases, ih, lexemesOfMembers, lexemesOfMembers, List.map_cons, List.flatMap_cons]
      rfl

/-- The text of a function, with single spaces between its words. -/
def print (f : Function) : String :=
  " ".intercalate ((lexemes names literal f).map (·.2))

end Lexemes

/-! Constants -/

/-- The value is a constant somewhere in the function. -/
inductive HasConst (value : Float) : Function → Prop
  | const : HasConst value (.const value)
  | sum {terms : List (AddOp × Function)} {p : AddOp × Function} (mem : p ∈ terms)
      (inner : HasConst value p.2) : HasConst value (.sum terms)
  | product {factors : List (MulOp × Function)} {p : MulOp × Function} (mem : p ∈ factors)
      (inner : HasConst value p.2) : HasConst value (.product factors)
  | power {bases : List Function} {base : Function} (mem : base ∈ bases)
      (inner : HasConst value base) : HasConst value (.power bases)
  | neg {f : Function} (inner : HasConst value f) : HasConst value (.neg f)
  | unary {fn : UnaryFn} {f : Function} (inner : HasConst value f) : HasConst value (.unary fn f)
  | first {fn : BinaryFn} {f g : Function} (inner : HasConst value f) :
      HasConst value (.binary fn f g)
  | second {fn : BinaryFn} {f g : Function} (inner : HasConst value g) :
      HasConst value (.binary fn f g)

/-- A number literal that is read as the value. -/
structure IsLiteral (text : String) (value : Float) : Prop where
  lexeme : IsLexeme (.number, text)
  value : Decimal.readLiteral text.toList = value

/-- The literals write all constants of the function. -/
def Spells (literal : Float → String) (f : Function) : Prop :=
  ∀ value, f.HasConst value → IsLiteral (literal value) value

/-! What is printed is what is written -/

section Printed

variable {names : List String} {literal : Float → String} {f : Function}

/-- Tokens that say what is printed for the function are written for it. -/
def Printed (names : List String) (literal : Float → String) (f : Function) : Prop :=
  ∀ ts : List Token, ts.map Token.lexeme = lexemes names literal f →
    Surface names (.whole f) ts

/-- The same for the function as an operand. -/
def PrintedOperand (names : List String) (literal : Float → String) (f : Function) : Prop :=
  ∀ ts : List Token, ts.map Token.lexeme = f.asOperand (lexemes names literal f) →
    Surface names (.operand f) ts

theorem lexeme_eq {tok : Token} {kind : Kind} {text : String} (h : tok.lexeme = (kind, text)) :
    tok.kind = kind ∧ tok.text = text :=
  Prod.mk.inj h

/-- A function that is printed as a word is a word. -/
theorem isWord_of_printed (hf : f.WellScoped names.length)
    (hliteral : Spells literal f)
    (hword : f.isWord = true) {ts : List Token}
    (hts : ts.map Token.lexeme = lexemes names literal f) :
    ∃ tok, ts = [tok] ∧ IsWord names f tok := by
  cases hf with
  | parameter =>
      obtain ⟨tok, rfl, htok⟩ := List.map_eq_singleton_iff.1 hts
      obtain ⟨hkind, htext⟩ := lexeme_eq htok
      exact ⟨tok, rfl, .parameter hkind htext⟩
  | @ref index below =>
      obtain ⟨tok, rfl, htok⟩ := List.map_eq_singleton_iff.1 hts
      obtain ⟨hkind, htext⟩ := lexeme_eq htok
      refine ⟨tok, rfl, .ref hkind ?_⟩
      rw [htext, List.getElem?_eq_getElem below]
      rfl
  | const value =>
      obtain ⟨tok, rfl, htok⟩ := List.map_eq_singleton_iff.1 hts
      obtain ⟨hkind, htext⟩ := lexeme_eq htok
      refine ⟨tok, rfl, .const hkind ?_⟩
      rw [htext, (hliteral value .const).value]
  | _ => cases hword

theorem Printed.operand (hf : f.WellScoped names.length)
    (hliteral : Spells literal f)
    (h : Printed names literal f) : PrintedOperand names literal f := by
  intro ts hts
  unfold asOperand at hts
  split at hts
  · rename_i hword
    obtain ⟨tok, rfl, htok⟩ := isWord_of_printed hf hliteral hword hts
    exact .word htok
  · obtain ⟨left, rest, rfl, hleft, hrest⟩ := List.map_eq_cons_iff.1 hts
    obtain ⟨us, vs, rfl, hus, hvs⟩ := List.map_eq_append_iff.1 hrest
    obtain ⟨right, rfl, hright⟩ := List.map_eq_singleton_iff.1 hvs
    exact .group (lexeme_eq hleft).1 (h us hus) (lexeme_eq hright).1

/-- The members of a chain behind the first one. -/
theorem surface_later {c : Chain} {members : List (c.Op × Function)}
    (h : ∀ p ∈ members, PrintedOperand names literal p.2) {ts : List Token}
    (hts : ts.map Token.lexeme = lexemesOfMembers names literal c members) :
    Surface names (.later c members) ts := by
  induction members generalizing ts with
  | nil =>
      obtain rfl := List.map_eq_nil_iff.1 hts
      exact .done
  | cons p members ih =>
      rw [List.forall_mem_cons] at h
      rw [lexemesOfMembers, List.flatMap_cons, List.cons_append] at hts
      obtain ⟨tok, rest, rfl, htok, hrest⟩ := List.map_eq_cons_iff.1 hts
      obtain ⟨us, vs, rfl, hus, hvs⟩ := List.map_eq_append_iff.1 hrest
      exact .step (lexeme_eq htok).1 (h.1 us hus) (ih h.2 hvs)

/-- A chain is printed as its first operand and what follows it. -/
theorem surface_members {c : Chain} {p : c.Op × Function} {members : List (c.Op × Function)}
    (h : ∀ q ∈ p :: members, PrintedOperand names literal q.2) {ts : List Token}
    (hts : ts.map Token.lexeme = (lexemesOfMembers names literal c (p :: members)).tail) :
    ∃ us vs, ts = us ++ vs ∧ Surface names (.operand p.2) us ∧
      Surface names (.later c members) vs := by
  rw [List.forall_mem_cons] at h
  obtain ⟨us, vs, rfl, hus, hvs⟩ := List.map_eq_append_iff.1 hts
  exact ⟨us, vs, rfl, h.1 us hus, surface_later h.2 hvs⟩

/-- Tokens that say what is printed for a function are written for it. -/
theorem printed (hf : f.WellScoped names.length)
    (hliteral : Spells literal f) :
    Printed names literal f := by
  induction hf with
  | parameter =>
      intro ts hts
      obtain ⟨tok, rfl, hword⟩ := isWord_of_printed .parameter hliteral rfl hts
      exact .single (.word hword)
  | ref below =>
      intro ts hts
      obtain ⟨tok, rfl, hword⟩ := isWord_of_printed (.ref below) hliteral rfl hts
      exact .single (.word hword)
  | const value =>
      intro ts hts
      obtain ⟨tok, rfl, hword⟩ := isWord_of_printed (.const value) hliteral rfl hts
      exact .single (.word hword)
  | @sum terms two tagged members ih =>
      intro ts hts
      have hoperands : ∀ p ∈ terms, PrintedOperand names literal p.2 := fun p hp =>
        (ih p hp fun value h => hliteral value (.sum hp h)).operand (members p hp)
          fun value h => hliteral value (.sum hp h)
      rw [lexemes, lexemesOfTerms_eq] at hts
      match terms, two, tagged with
      | (op, first) :: next :: terms, _, tagged =>
          obtain rfl : op = .plus := by simpa using tagged
          obtain ⟨us, vs, rfl, hus, hvs⟩ := surface_members (c := .sum) hoperands hts
          exact .sum hus hvs
  | @product factors two tagged members ih =>
      intro ts hts
      have hoperands : ∀ p ∈ factors, PrintedOperand names literal p.2 := fun p hp =>
        (ih p hp fun value h => hliteral value (.product hp h)).operand (members p hp)
          fun value h => hliteral value (.product hp h)
      rw [lexemes, lexemesOfFactors_eq] at hts
      match factors, two, tagged with
      | (op, first) :: next :: factors, _, tagged =>
          obtain rfl : op = .times := by simpa using tagged
          obtain ⟨us, vs, rfl, hus, hvs⟩ := surface_members (c := .product) hoperands hts
          exact .product hus hvs
  | @power bases two members ih =>
      intro ts hts
      have hoperands : ∀ base ∈ bases, PrintedOperand names literal base := fun base hbase =>
        (ih base hbase fun value h => hliteral value (.power hbase h)).operand (members base hbase)
          fun value h => hliteral value (.power hbase h)
      rw [lexemes, lexemesOfBases_eq] at hts
      match bases, two with
      | first :: next :: bases, _ =>
          have hmembers : ∀ p ∈ (first :: next :: bases).map ((), ·),
              PrintedOperand names literal p.2 := List.forall_mem_map.2 hoperands
          obtain ⟨us, vs, rfl, hus, hvs⟩ := surface_members (c := .power) hmembers hts
          exact .power hus hvs
  | @neg operand inner ih =>
      intro ts hts
      have hliteral' := fun value h => hliteral value (.neg h)
      obtain ⟨sign, us, rfl, hsign, hus⟩ := List.map_eq_cons_iff.1 hts
      exact .neg (lexeme_eq hsign).1 ((ih hliteral').operand inner hliteral' us hus)
  | @unary fn operand inner ih =>
      intro ts hts
      have hliteral' := fun value h => hliteral value (.unary h)
      obtain ⟨name, us, rfl, hname, hus⟩ := List.map_eq_cons_iff.1 hts
      obtain ⟨hkind, htext⟩ := lexeme_eq hname
      exact .unary hkind htext ((ih hliteral').operand inner hliteral' us hus)
  | @binary fn first second left right ihLeft ihRight =>
      intro ts hts
      have hleft := fun value h => hliteral value (.first h)
      have hright := fun value h => hliteral value (.second h)
      obtain ⟨name, args, rfl, hname, hargs⟩ := List.map_eq_cons_iff.1 hts
      obtain ⟨us, vs, rfl, hus, hvs⟩ := List.map_eq_append_iff.1 hargs
      obtain ⟨hkind, htext⟩ := lexeme_eq hname
      exact .binary hkind htext ((ihLeft hleft).operand left hleft us hus)
        ((ihRight hright).operand right hright vs hvs)

/-! Printed words -/

theorem isLexeme_operator (c : Chain) (op : c.Op) : IsLexeme (c.opKind op, c.opText op) := by
  cases c <;> cases op <;> decide

theorem isLexeme_unaryName (fn : UnaryFn) : IsLexeme (.ident, fn.name) := by
  cases fn <;> decide

theorem isLexeme_binaryName (fn : BinaryFn) : IsLexeme (.ident, fn.name) := by
  cases fn <;> decide

theorem isLexeme_asOperand (f : Function) {lexemes : List (Kind × String)}
    (h : ∀ l ∈ lexemes, IsLexeme l) : ∀ l ∈ f.asOperand lexemes, IsLexeme l := by
  unfold asOperand
  split
  · exact h
  · rw [enclose, List.forall_mem_cons, List.forall_mem_append, List.forall_mem_singleton]
    exact ⟨by decide, h, by decide⟩

theorem isLexeme_members {c : Chain} {members : List (c.Op × Function)}
    (h : ∀ p ∈ members, ∀ l ∈ lexemes names literal p.2, IsLexeme l) :
    ∀ l ∈ lexemesOfMembers names literal c members, IsLexeme l := by
  intro l hl
  obtain ⟨p, hp, hl⟩ := List.mem_flatMap.1 hl
  rcases List.mem_cons.1 hl with rfl | hl
  · exact isLexeme_operator c p.1
  · exact isLexeme_asOperand p.2 (h p hp) l hl

/-- Every word that is printed is a token. -/
theorem isLexeme_lexemes (hnames : ∀ name ∈ names, IsLexeme (.ident, name))
    (hf : f.WellScoped names.length) (hliteral : Spells literal f) :
    ∀ l ∈ lexemes names literal f, IsLexeme l := by
  induction hf with
  | parameter => exact List.forall_mem_singleton.2 (by decide)
  | @ref index below =>
      refine List.forall_mem_singleton.2 ?_
      rw [List.getElem?_eq_getElem below]
      exact hnames _ (List.getElem_mem below)
  | const value => exact List.forall_mem_singleton.2 (hliteral value .const).lexeme
  | @sum terms _ _ _ ih =>
      rw [lexemes, lexemesOfTerms_eq]
      intro l hl
      refine isLexeme_members (c := .sum) (fun p hp => ?_) l (List.mem_of_mem_tail hl)
      exact ih p hp fun value h => hliteral value (.sum hp h)
  | @product factors _ _ _ ih =>
      rw [lexemes, lexemesOfFactors_eq]
      intro l hl
      refine isLexeme_members (c := .product) (fun p hp => ?_) l (List.mem_of_mem_tail hl)
      exact ih p hp fun value h => hliteral value (.product hp h)
  | @power bases _ _ ih =>
      rw [lexemes, lexemesOfBases_eq]
      intro l hl
      refine isLexeme_members (c := .power) (List.forall_mem_map.2 fun base hbase => ?_) l
        (List.mem_of_mem_tail hl)
      exact ih base hbase fun value h => hliteral value (.power hbase h)
  | @neg operand _ ih =>
      rw [lexemes, List.forall_mem_cons]
      exact ⟨by decide, isLexeme_asOperand operand (ih fun value h => hliteral value (.neg h))⟩
  | @unary fn operand _ ih =>
      rw [lexemes, List.forall_mem_cons]
      exact ⟨isLexeme_unaryName fn,
        isLexeme_asOperand operand (ih fun value h => hliteral value (.unary h))⟩
  | @binary fn first second _ _ ihFirst ihSecond =>
      rw [lexemes, List.forall_mem_cons, List.forall_mem_append]
      exact ⟨isLexeme_binaryName fn,
        isLexeme_asOperand first (ihFirst fun value h => hliteral value (.first h)),
        isLexeme_asOperand second (ihSecond fun value h => hliteral value (.second h))⟩

/-- What is printed can be cut into its words again. -/
theorem exists_scan_print (hnames : ∀ name ∈ names, IsLexeme (.ident, name))
    (hf : f.WellScoped names.length) (hliteral : Spells literal f) :
    ∃ s, scan (print names literal f) = .ok s ∧
      s.tokens.map Token.lexeme = lexemes names literal f := by
  obtain ⟨s, hs, hlexemes⟩ :=
    scanFrom_intercalate (isLexeme_lexemes hnames hf hliteral) .start
  refine ⟨s, ?_, hlexemes⟩
  rw [scan, print, String.toList_intercalate, List.map_map]
  exact hs

end Printed

end Function

/-! Sources -/

/-- The names of a where clause resolve to their places. -/
theorem resolves_of_compileAssignments {clause : String} {fs : List Function} {scope : Scope}
    (h : compileAssignments clause = .ok (fs, scope)) : scope.Resolves scope.names := by
  obtain ⟨hnaming, _, hscope⟩ := naming_of_compileAssignments h
  refine ⟨?_, fun i name hname => ⟨?_, ?_⟩⟩
  · rw [hscope, Scope.visible?_ofNames, Scope.index?_ofNames_parameter]
  · exact hnaming.noConstant name (List.mem_of_getElem? hname)
  · rw [hscope, Scope.visible?_ofNames,
      Scope.index?_ofNames hnaming.distinct hnaming.noParameter hname]

/-- Printing and compiling are inverse. Let a function be well scoped under the names of a where
clause, and let literals be given for its constants. Then what is printed for it is cut into the
printed words; it compiles to the function in the scope of the clause, if its parentheses do not
nest too deep; and so does every source the tokens of which are the function with any further
parentheses around operands or the whole, wherever blanks and line feeds stand in it. -/
theorem compileExpr_print {clause : String} {fs : List Function} {scope : Scope}
    (hclause : compileAssignments clause = .ok (fs, scope)) {f : Function}
    (hf : f.WellScoped scope.names.length) {literal : Float → String}
    (hliteral : f.Spells literal) (axis : Option String) :
    (∃ s, scan (f.print scope.names literal) = .ok s ∧
      s.tokens.map Token.lexeme = f.lexemes scope.names literal ∧
      Function.Surface scope.names (.whole f) s.tokens ∧
      (mostOpen 0 s.tokens ≤ maxNesting →
        compileExpr (f.print scope.names literal) scope axis = .ok f)) ∧
    ∀ source s, scan source = .ok s →
      Function.Surface scope.names (.whole f) (withoutNewlines s.tokens) →
      mostOpen 0 (withoutNewlines s.tokens) ≤ maxNesting →
        compileExpr source scope axis = .ok f := by
  have hscope := resolves_of_compileAssignments hclause
  constructor
  · obtain ⟨_, hnames, _⟩ := naming_of_compileAssignments hclause
    obtain ⟨s, hs, hlexemes⟩ := Function.exists_scan_print hnames hf hliteral
    have hsurface := Function.printed hf hliteral s.tokens hlexemes
    have hnewlines : withoutNewlines s.tokens = s.tokens :=
      hsurface.withoutNewlines hscope (spelled_of_scan hs)
    refine ⟨s, hs, hlexemes, hsurface, fun hnesting => ?_⟩
    exact compileExpr_of_surface hs hscope (hnewlines.symm ▸ hsurface)
      (hnewlines.symm ▸ hnesting) axis
  · intro source s hs hsurface hnesting
    exact compileExpr_of_surface hs hscope hsurface hnesting axis

/-- A quotient as it is printed, and with more parentheses and a line feed in between. -/
theorem compileExpr_print_quotient :
    ∃ fs scope f, compileAssignments "u = t" = .ok (fs, scope) ∧
      f = Function.product
        [(.times, .const (Decimal.readLiteral "2".toList)), (.divide, .neg (.ref 0))] ∧
      f.print scope.names (fun _ => "2") = "2 / ( - u )" ∧
      compileExpr "2 / ( - u )" scope none = .ok f ∧
      compileExpr "(2)/(-\n(u))" scope none = .ok f := by
  have hok : (compileAssignments "u = t").toOption.map (·.2) = some (Scope.ofNames ["u"]) := by
    decide +kernel
  have hsource : scan "2 / ( - u )" = .ok
      ⟨[⟨.number, "2", ⟨0, 1, 1⟩⟩, ⟨.slash, "/", ⟨2, 1, 3⟩⟩, ⟨.lparen, "(", ⟨4, 1, 5⟩⟩,
        ⟨.minus, "-", ⟨6, 1, 7⟩⟩, ⟨.ident, "u", ⟨8, 1, 9⟩⟩, ⟨.rparen, ")", ⟨10, 1, 11⟩⟩],
        ⟨11, 1, 12⟩⟩ := by
    decide +kernel
  have hredundant : scan "(2)/(-\n(u))" = .ok
      ⟨[⟨.lparen, "(", ⟨0, 1, 1⟩⟩, ⟨.number, "2", ⟨1, 1, 2⟩⟩, ⟨.rparen, ")", ⟨2, 1, 3⟩⟩,
        ⟨.slash, "/", ⟨3, 1, 4⟩⟩, ⟨.lparen, "(", ⟨4, 1, 5⟩⟩, ⟨.minus, "-", ⟨5, 1, 6⟩⟩,
        ⟨.newline, "\n", ⟨6, 1, 7⟩⟩, ⟨.lparen, "(", ⟨7, 2, 1⟩⟩, ⟨.ident, "u", ⟨8, 2, 2⟩⟩,
        ⟨.rparen, ")", ⟨9, 2, 3⟩⟩, ⟨.rparen, ")", ⟨10, 2, 4⟩⟩], ⟨11, 2, 5⟩⟩ := by
    decide +kernel
  have htwo : Function.Surface ["u"] (.operand (.const (Decimal.readLiteral "2".toList)))
      (⟨.lparen, "(", ⟨0, 1, 1⟩⟩ :: ([⟨.number, "2", ⟨1, 1, 2⟩⟩] ++ [⟨.rparen, ")", ⟨2, 1, 3⟩⟩])) :=
    .group rfl (.single (.word (.const rfl rfl))) rfl
  have hu : Function.Surface ["u"] (.operand (.ref 0))
      (⟨.lparen, "(", ⟨7, 2, 1⟩⟩ :: ([⟨.ident, "u", ⟨8, 2, 2⟩⟩] ++ [⟨.rparen, ")", ⟨9, 2, 3⟩⟩])) :=
    .group rfl (.single (.word (.ref rfl rfl))) rfl
  have hneg : Function.Surface ["u"] (.operand (.neg (.ref 0)))
      (⟨.lparen, "(", ⟨4, 1, 5⟩⟩ :: ((⟨.minus, "-", ⟨5, 1, 6⟩⟩ :: _) ++
        [⟨.rparen, ")", ⟨10, 2, 4⟩⟩])) :=
    .group rfl (.neg rfl hu) rfl
  have hlater : Function.Surface ["u"] (.later .product [(.divide, .neg (.ref 0))])
      (⟨.slash, "/", ⟨3, 1, 4⟩⟩ :: (_ ++ [])) :=
    .step rfl hneg .done
  cases hclause : compileAssignments "u = t" with
  | error e =>
      rw [hclause] at hok
      cases hok
  | ok r =>
      obtain ⟨fs, scope⟩ := r
      rw [hclause] at hok
      obtain rfl : scope = Scope.ofNames ["u"] := Option.some.inj hok
      have hf : (Function.product [(.times, .const (Decimal.readLiteral "2".toList)),
          (.divide, .neg (.ref 0))]).WellScoped 1 :=
        .product (by decide) rfl (List.forall_mem_cons.2
          ⟨.const _, List.forall_mem_singleton.2 (.neg (.ref Nat.one_pos))⟩)
      have hliteral : (Function.product [(.times, .const (Decimal.readLiteral "2".toList)),
          (.divide, .neg (.ref 0))]).Spells fun _ => "2" := by
        intro value hvalue
        cases hvalue with
        | product mem inner =>
            rcases List.mem_cons.1 mem with rfl | mem
            · cases inner
              exact ⟨by decide, rfl⟩
            · obtain rfl := List.mem_singleton.1 mem
              cases inner with
              | neg inner => cases inner
      obtain ⟨⟨s, hs, _, _, hprint⟩, hwritten⟩ := compileExpr_print hclause hf hliteral none
      refine ⟨fs, _, _, rfl, rfl, rfl, ?_, ?_⟩
      · have hsame := hsource.symm.trans hs
        cases hsame
        exact hprint (by decide)
      · exact hwritten _ _ hredundant (.product htwo hlater) (by decide)

end FlightCurve

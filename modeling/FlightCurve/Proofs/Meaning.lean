import Mathlib.Data.List.Nodup
import FlightCurve.Arithmetic.Double
import FlightCurve.Compilation
import FlightCurve.Proofs.Clause
import FlightCurve.Proofs.CurveExpression
import FlightCurve.Proofs.Folds
import FlightCurve.Proofs.Positions

/-!
The meaning of sources by names. An environment says what each name stands for; a tree has a value
in an environment, and assignments extend it one name at a time. Operators and functions are taken
at their word: what is done to the operands of a chain is what is written before them in the source.
Nothing here knows of indices, of scopes or of compiled functions.

The main statement is that compilation keeps the meaning: a compiled function over compiled
assignments has the value that its source has by names, for every choice of the operations.
-/

namespace FlightCurve

/-! Words -/

/-- The text of the token at a place of a source. -/
def textAt (source : String) (p : Position) : Option String :=
  match scan source with
  | .ok s => (s.tokens.find? fun tok => tok.position = p).map Token.text
  | .error _ => none

/-- The operator that is written with a text between the operands of a chain. -/
def Chain.written? : (c : Chain) → String → Option c.Op
  | .sum, "+" => some .plus
  | .sum, "-" => some .minus
  | .product, "*" => some .times
  | .product, "/" => some .divide
  | .product, "//" => some .floorDivide
  | .product, "%" => some .modulo
  | .power, "^" => some ()
  | _, _ => none

/-- The function of one argument that a word names. -/
def UnaryFn.written? (word : String) : Option UnaryFn :=
  [("sin", UnaryFn.sin), ("cos", .cos), ("tan", .tan), ("asin", .asin), ("acos", .acos),
    ("atan", .atan), ("sinh", .sinh), ("cosh", .cosh), ("tanh", .tanh), ("asinh", .asinh),
    ("acosh", .acosh), ("atanh", .atanh), ("ln", .ln), ("log2", .log2), ("log10", .log10),
    ("sqrt", .sqrt), ("cbrt", .cbrt), ("abs", .abs), ("sign", .sign), ("floor", .floor),
    ("ceil", .ceil), ("fract", .fract)].lookup word

/-- The function of two arguments that a word names. -/
def BinaryFn.written? (word : String) : Option BinaryFn :=
  [("min", BinaryFn.min), ("max", .max), ("atan2", .atan2)].lookup word

/-! Values by names -/

/-- What names stand for; a name without a value is unknown. -/
abbrev Environment (α : Type) := String → Option α

namespace Environment

variable {α : Type}

/-- The environment in which the parameter has the value `t` and the constants have theirs. -/
def initial (ops : Arithmetic α) (t : α) : Environment α
  | "t" => some t
  | "tau" => some (ops.literal 6.283185307179586)
  | "pi" => some (ops.literal 3.141592653589793)
  | "e" => some (ops.literal 2.718281828459045)
  | _ => none

def bind (env : Environment α) (name : String) (value : α) : Environment α := fun other =>
  if other = name then some value else env other

@[simp] theorem bind_self (env : Environment α) (name : String) (value : α) :
    env.bind name value name = some value := if_pos rfl

theorem bind_of_ne (env : Environment α) {name other : String} (h : other ≠ name) (value : α) :
    env.bind name value other = env other := if_neg h

end Environment

section Value

variable {α : Type} (ops : Arithmetic α) (text : Position → Option String) (env : Environment α)

mutual

/-- The value of a tree by names. A sign applies to the whole power after it. -/
def Tree.value {r : Rule} : Tree r → Option α
  | @Tree.chain c first rest => do
      let a ← first.value
      let as ← rest.values
      some (c.fold ops a as)
  | .signed negated operand => do
      let a ← operand.value
      some (if negated then ops.neg a else a)
  | .callOne name argument => do
      let fn ← UnaryFn.written? name.value
      let a ← argument.value
      some (ops.unary fn a)
  | .callTwo name first second => do
      let fn ← BinaryFn.written? name.value
      let a ← first.value
      let b ← second.value
      some (ops.binary fn a b)
  | .plain primary => primary.value
  | .group inner => inner.value
  | .variable name => env name.value
  | .number literal => some (ops.literal (Decimal.readLiteral literal.value.toList))

/-- The values of the operands, each with the operator that is written where the tree has one. -/
def Tail.values {c : Chain} : Tail c → Option (List (c.Op × α))
  | .done => some []
  | .step op operand rest => do
      let written ← text op.position
      let op ← c.written? written
      let a ← operand.value
      let as ← rest.values
      some ((op, a) :: as)

end

end Value

/-- The environment after assignments: the target of each is bound to the value that its right side
has in the environment of the targets before it. -/
def Environment.extend {α : Type} (ops : Arithmetic α) (text : Position → Option String)
    (env : Environment α) : List Assignment → Option (Environment α)
  | [] => some env
  | a :: rest => do
      let v ← a.value.value ops text env
      extend ops text (env.bind a.target.value v) rest

/-- The value of the expression of a source after the assignments of a where clause. -/
def Environment.valueAfter {α : Type} (ops : Arithmetic α) (t : α) (clause : String)
    (as : List Assignment) (source : String) (e : Expr) : Option α := do
  let env ← (initial ops t).extend ops (textAt clause) as
  e.value ops (textAt source) env

/-! Words that are written where trees have them -/

theorem Chain.written?_opText (c : Chain) (op : c.Op) : c.written? (c.opText op) = some op := by
  cases c <;> cases op <;> rfl

theorem UnaryFn.written?_of_ofName? {word : String} {fn : UnaryFn} (h : ofName? word = some fn) :
    written? word = some fn := by
  obtain rfl : fn.name = word := by simpa using List.find?_some h
  cases fn <;> rfl

theorem BinaryFn.written?_of_ofName? {word : String} {fn : BinaryFn} (h : ofName? word = some fn) :
    written? word = some fn := by
  obtain rfl : fn.name = word := by simpa using List.find?_some h
  cases fn <;> rfl

/-- Every leaf that keeps its place is written there. -/
def AreWritten (text : Position → Option String) (leaves : List Leaf) : Prop :=
  ∀ leaf ∈ leaves, ∀ p ∈ leaf.position, text p = some leaf.text

section Written

variable {text : Position → Option String} {leaf : Leaf} {leaves leaves' : List Leaf}

theorem areWritten_append :
    AreWritten text (leaves ++ leaves') ↔ AreWritten text leaves ∧ AreWritten text leaves' :=
  List.forall_mem_append

theorem areWritten_cons : AreWritten text (leaf :: leaves) ↔
    (∀ p ∈ leaf.position, text p = some leaf.text) ∧ AreWritten text leaves :=
  List.forall_mem_cons

theorem Fit.areWritten {ts : List Token} (h : Fit leaves ts)
    (htext : ∀ tok ∈ ts, text tok.position = some tok.text) : AreWritten text leaves := by
  induction h with
  | nil => exact List.forall_mem_nil _
  | @cons leaf tok leaves ts hleaf _ ih =>
      rw [List.forall_mem_cons] at htext
      refine areWritten_cons.2 ⟨fun p hp => ?_, ih htext.2⟩
      rw [hleaf.position p hp, hleaf.text]
      exact htext.1

end Written

/-- No two tokens are at one place. -/
theorem textAt_of_mem {source : String} {s : Scanned} (h : scan source = .ok s) {tok : Token}
    (htok : tok ∈ s.tokens) : textAt source tok.position = some tok.text := by
  rw [textAt, h]
  change (s.tokens.find? fun other => other.position = tok.position).map Token.text = _
  cases hfind : s.tokens.find? fun other => other.position = tok.position with
  | none => exact absurd (List.find?_eq_none.1 hfind tok htok) (by simp)
  | some found =>
      have hposition : found.position = tok.position := by simpa using List.find?_some hfind
      obtain rfl := List.inj_on_of_nodup_map (nodup_position_of_scan h)
        (List.mem_of_find?_eq_some hfind) htok hposition
      rfl

theorem areWritten_of_parseExpr {source : String} {axis : Option String} {e : Expr}
    (h : parseExpr source axis = .ok e) : AreWritten (textAt source) e.flatten := by
  obtain ⟨s, hs⟩ := exists_scan_of_read h
  obtain ⟨body, hbody, hfit⟩ := (parseExpr_eq_ok_iff hs).1 h
  obtain ⟨header, hheader, _⟩ := hbody.header
  refine hfit.areWritten fun tok htok => textAt_of_mem hs ?_
  have hmem : tok ∈ withoutNewlines s.tokens := hheader ▸ List.mem_append_right header htok
  exact List.mem_of_mem_filter hmem

theorem areWritten_of_fits {text : Position → Option String} {as : List Assignment}
    {all : List AssignmentTokens} (h : List.Forall₂ Assignment.Fits as all)
    (htext : ∀ tokens ∈ all, ∀ tok ∈ tokens.value, text tok.position = some tok.text) :
    ∀ a ∈ as, AreWritten text a.value.flatten := by
  induction h with
  | nil => exact List.forall_mem_nil _
  | @cons a tokens as all hfits _ ih =>
      rw [List.forall_mem_cons] at htext
      exact List.forall_mem_cons.2 ⟨hfits.value.areWritten htext.1, ih htext.2⟩

theorem areWritten_of_parseAssignments {source : String} {as : List Assignment}
    (h : parseAssignments source = .ok as) :
    ∀ a ∈ as, AreWritten (textAt source) a.value.flatten := by
  obtain ⟨s, hs⟩ := exists_scan_of_read h
  obtain ⟨all, hall, hfits⟩ := (parseAssignments_eq_ok_iff hs).1 h
  refine areWritten_of_fits hfits fun tokens htokens tok htok => textAt_of_mem hs ?_
  obtain ⟨before, after, hstands, _⟩ := hall.standsIn tokens htokens
  have hmem : tok ∈ clauseTokens s.tokens := by
    rw [hstands, AssignmentTokens.all]
    simp [htok]
  exact (clauseTokens_sublist s.tokens).mem hmem

/-! Scopes that describe environments -/

/-- Every name that the scope or the constants give to an expression has the value in `env` that a
compiled function finds for it: its own, that of the parameter, or one of `values`. -/
structure Scope.Describes {α : Type} (ops : Arithmetic α) (t : α) (values : List α) (scope : Scope)
    (env : Environment α) : Prop where
  constant : ∀ name x, constant? name = some x → env name = some (ops.literal x)
  parameter : ∀ name, constant? name = none → scope.visible? name = some none → env name = some t
  ref : ∀ name index, constant? name = none → scope.visible? name = some (some index) →
    ∃ a, values[index]? = some a ∧ env name = some a

namespace Scope

variable {α : Type} {ops : Arithmetic α} {t : α} {values : List α} {scope : Scope}
  {env : Environment α}

theorem describes_initial (ops : Arithmetic α) (t : α) :
    initial.Describes ops t [] (.initial ops t) where
  constant := by
    intro name x hx
    obtain ⟨before, after, hsplit, -⟩ := List.lookup_eq_some_iff.1 hx
    have hmem : (name, x) ∈ constants := by
      rw [hsplit]
      exact List.mem_append_right before List.mem_cons_self
    simp only [constants, List.mem_cons, Prod.mk.injEq, List.not_mem_nil, or_false] at hmem
    rcases hmem with ⟨rfl, rfl⟩ | ⟨rfl, rfl⟩ | ⟨rfl, rfl⟩ <;> rfl
  parameter := by
    intro name _ hvisible
    rw [visible?_of_hidden_eq_none rfl, index?, initial, lookup_cons_eq_if] at hvisible
    split at hvisible
    · rename_i hname
      rw [hname]
      rfl
    · cases hvisible
  ref := by
    intro name index _ hvisible
    have hlt := bounded_initial.visible name index hvisible
    exact absurd hlt (Nat.not_lt_zero index)

/-- While its right side is compiled a new name is hidden, so what is visible does not change. -/
theorem Describes.define (h : scope.Describes ops t values env) (hsettled : scope.hidden = none)
    (name : String) : (scope.define name).Describes ops t values env where
  constant := h.constant
  parameter := by
    intro other hconstant hvisible
    rw [visible?_define] at hvisible
    split at hvisible
    · cases hvisible
    · exact h.parameter other hconstant (by rwa [visible?_of_hidden_eq_none hsettled])
  ref := by
    intro other index hconstant hvisible
    rw [visible?_define] at hvisible
    split at hvisible
    · cases hvisible
    · exact h.ref other index hconstant (by rwa [visible?_of_hidden_eq_none hsettled])

/-- The name defined last gets the next index, and its value stands at the end of the values. -/
theorem Describes.bind (h : scope.Describes ops t values env) (hsettled : scope.hidden = none)
    (hcount : scope.count = values.length) {name : String} (hname : constant? name = none) (a : α) :
    (scope.define name).settle.Describes ops t (values ++ [a]) (env.bind name a) where
  constant := by
    intro other x hx
    have hne : other ≠ name := by
      rintro rfl
      rw [hname] at hx
      cases hx
    rw [Environment.bind_of_ne env hne]
    exact h.constant other x hx
  parameter := by
    intro other hconstant hvisible
    rw [visible?_settle, index?_define] at hvisible
    split at hvisible
    · cases hvisible
    · rename_i hne
      rw [Environment.bind_of_ne env hne]
      exact h.parameter other hconstant (by rwa [visible?_of_hidden_eq_none hsettled])
  ref := by
    intro other index hconstant hvisible
    rw [visible?_settle, index?_define] at hvisible
    split at hvisible
    · rename_i heq
      -- the new name: its index is the number of values before its own
      subst heq
      cases hvisible
      exact ⟨a, by rw [hcount, List.getElem?_concat_length], env.bind_self other a⟩
    · rename_i hne
      obtain ⟨b, hvalue, henv⟩ :=
        h.ref other index hconstant (by rwa [visible?_of_hidden_eq_none hsettled])
      have hlt : index < values.length := (List.getElem?_eq_some_iff.1 hvalue).1
      refine ⟨b, ?_, ?_⟩
      · rw [List.getElem?_append_left hlt]
        exact hvalue
      · rw [Environment.bind_of_ne env hne]
        exact henv

end Scope

/-! Compiling keeps the value -/

namespace Function

variable {α : Type} {ops : Arithmetic α} {t : α} {values : List α} {scope : Scope}
  {env : Environment α} {text : Position → Option String}

theorem ofName_value (hscope : scope.Describes ops t values env) {name : Placed String}
    {f : Function} (h : ofName scope name = .ok f) :
    ∃ a, f.evaluate ops t values = some a ∧ env name.value = some a := by
  unfold ofName at h
  split at h
  · rename_i x hx
    cases h
    exact ⟨ops.literal x, rfl, hscope.constant _ x hx⟩
  · rename_i hconstant
    split at h
    · rename_i index hindex
      cases h
      exact hscope.ref _ index hconstant hindex
    · rename_i hparameter
      cases h
      exact ⟨t, rfl, hscope.parameter _ hconstant hparameter⟩
    · cases h

-- One case for each form of tree, as in the definitions of both sides; a chain hands its operands
-- with their operators to `ofTail_values`, and `evaluate_ofChain` puts them together again.
mutual

/-- A compiled function has the value of its tree. -/
theorem ofTree_value (hscope : scope.Describes ops t values env) {r : Rule} (tree : Tree r)
    {f : Function} (h : ofTree scope tree = .ok f) (hwritten : AreWritten text tree.flatten) :
    ∃ a, f.evaluate ops t values = some a ∧ tree.value ops text env = some a := by
  match tree, h with
  | @Tree.chain c first rest, h =>
      simp only [ofTree] at h
      obtain ⟨g, hg, h⟩ := Outcome.bind_eq_ok_iff.1 h
      obtain ⟨gs, hgs, h⟩ := Outcome.bind_eq_ok_iff.1 h
      cases h
      obtain ⟨hfirst, hrest⟩ := areWritten_append.1 hwritten
      obtain ⟨a, hga, hfirst⟩ := ofTree_value hscope first hg hfirst
      obtain ⟨as, hgas, hrest⟩ := ofTail_values hscope rest hgs hrest
      refine ⟨c.fold ops a as, evaluate_ofChain c hga hgas, ?_⟩
      rw [Tree.value, hfirst, hrest]
      rfl
  | .signed negated operand, h =>
      simp only [ofTree] at h
      obtain ⟨g, hg, h⟩ := Outcome.bind_eq_ok_iff.1 h
      cases h
      have hoperand : AreWritten text operand.flatten := by
        cases negated with
        | false => exact hwritten
        | true => exact (areWritten_cons.1 hwritten).2
      obtain ⟨a, hga, hoperand⟩ := ofTree_value hscope operand hg hoperand
      refine ⟨if negated then ops.neg a else a, ?_, ?_⟩
      · cases negated with
        | false => exact hga
        | true =>
            change (do let b ← g.evaluate ops t values; some (ops.neg b)) = some (ops.neg a)
            rw [hga]
            rfl
      · rw [Tree.value, hoperand]
        rfl
  | .callOne name argument, h =>
      simp only [ofTree] at h
      split at h
      · cases h
      · rename_i fn hfn
        obtain ⟨g, hg, h⟩ := Outcome.bind_eq_ok_iff.1 h
        cases h
        obtain ⟨a, hga, hargument⟩ :=
          ofTree_value hscope argument hg (areWritten_cons.1 hwritten).2
        refine ⟨ops.unary fn a, ?_, ?_⟩
        · rw [evaluate, hga]
          rfl
        · rw [Tree.value, UnaryFn.written?_of_ofName? hfn, hargument]
          rfl
  | .callTwo name first second, h =>
      simp only [ofTree] at h
      split at h
      · cases h
      · rename_i fn hfn
        obtain ⟨g, hg, h⟩ := Outcome.bind_eq_ok_iff.1 h
        obtain ⟨g', hg', h⟩ := Outcome.bind_eq_ok_iff.1 h
        cases h
        obtain ⟨hfirst, hsecond⟩ := areWritten_append.1 (areWritten_cons.1 hwritten).2
        obtain ⟨a, hga, hfirst⟩ := ofTree_value hscope first hg hfirst
        obtain ⟨b, hgb, hsecond⟩ := ofTree_value hscope second hg' hsecond
        refine ⟨ops.binary fn a b, ?_, ?_⟩
        · rw [evaluate, hga, hgb]
          rfl
        · rw [Tree.value, BinaryFn.written?_of_ofName? hfn, hfirst, hsecond]
          rfl
  | .plain primary, h =>
      simp only [ofTree] at h
      simp only [Tree.value]
      exact ofTree_value hscope primary h hwritten
  | .group inner, h =>
      simp only [ofTree] at h
      simp only [Tree.value]
      exact ofTree_value hscope inner h
        (areWritten_append.1 (areWritten_cons.1 hwritten).2).1
  | .variable name, h =>
      simp only [ofTree] at h
      simp only [Tree.value]
      exact ofName_value hscope h
  | .number literal, h =>
      simp only [ofTree] at h
      cases h
      exact ⟨_, rfl, rfl⟩

theorem ofTail_values (hscope : scope.Describes ops t values env) {c : Chain} (tail : Tail c)
    {fs : List (c.Op × Function)} (h : ofTail scope tail = .ok fs)
    (hwritten : AreWritten text tail.flatten) :
    ∃ as, memberValues ops t values fs = some as ∧ tail.values ops text env = some as := by
  match tail, h with
  | .done, h =>
      cases h
      exact ⟨[], rfl, rfl⟩
  | .step op operand rest, h =>
      simp only [ofTail] at h
      obtain ⟨g, hg, h⟩ := Outcome.bind_eq_ok_iff.1 h
      obtain ⟨gs, hgs, h⟩ := Outcome.bind_eq_ok_iff.1 h
      cases h
      obtain ⟨hop, hleaves⟩ := areWritten_cons.1 hwritten
      obtain ⟨hoperand, hrest⟩ := areWritten_append.1 hleaves
      obtain ⟨a, hga, hoperand⟩ := ofTree_value hscope operand hg hoperand
      obtain ⟨as, hgas, hrest⟩ := ofTail_values hscope rest hgs hrest
      have hop : text op.position = some (c.opText op.value) := hop op.position rfl
      refine ⟨(op.value, a) :: as, ?_, ?_⟩
      · rw [memberValues, hga, hgas]
        rfl
      · rw [Tail.values, hop]
        change (do let op ← c.written? (c.opText op.value); _) = _
        rw [c.written?_opText, hoperand, hrest]
        rfl

end

/-- One assignment: its function has the value of its right side, and the scope after it describes
the environment in which the target has that value. -/
theorem ofAssignment_value (hscope : scope.Describes ops t values env)
    (hsettled : scope.hidden = none) (hcount : scope.count = values.length) {a : Assignment}
    {f : Function} {next : Scope} (h : ofAssignment scope a = .ok (f, next))
    (hwritten : AreWritten text a.value.flatten) :
    ∃ v, f.evaluate ops t values = some v ∧ a.value.value ops text env = some v ∧
      next.Describes ops t (values ++ [v]) (env.bind a.target.value v) ∧
      next.hidden = none ∧ next.count = (values ++ [v]).length := by
  unfold ofAssignment at h
  split at h
  · cases h
  · split at h
    · cases h
    · rename_i hconstant
      obtain ⟨g, hg, h⟩ := Outcome.bind_eq_ok_iff.1 h
      cases h
      have hname : constant? a.target.value = none := by simpa using hconstant
      obtain ⟨v, hgv, hvalue⟩ :=
        ofTree_value (hscope.define hsettled a.target.value) a.value hg hwritten
      refine ⟨v, hgv, hvalue, hscope.bind hsettled hcount hname v, rfl, ?_⟩
      change scope.count + 1 = _
      rw [hcount, List.length_append, List.length_singleton]

/-- The forward pass over compiled assignments computes the environment of their targets. -/
theorem ofAssignments_value (hscope : scope.Describes ops t values env)
    (hsettled : scope.hidden = none) (hcount : scope.count = values.length)
    {as : List Assignment} {fs : List Function} {last : Scope}
    (h : ofAssignments scope as = .ok (fs, last))
    (hwritten : ∀ a ∈ as, AreWritten text a.value.flatten) :
    ∃ all final, evaluateInOrder ops t values fs = some all ∧
      env.extend ops text as = some final ∧ last.Describes ops t all final := by
  induction as generalizing scope values env fs with
  | nil =>
      cases h
      exact ⟨values, env, rfl, rfl, hscope⟩
  | cons a as ih =>
      simp only [ofAssignments] at h
      obtain ⟨⟨f, next⟩, hf, h⟩ := Outcome.bind_eq_ok_iff.1 h
      obtain ⟨⟨gs, last'⟩, hgs, h⟩ := Outcome.bind_eq_ok_iff.1 h
      cases h
      obtain ⟨ha, hrest⟩ := List.forall_mem_cons.1 hwritten
      obtain ⟨v, hfv, hvalue, hnext, hsettled', hcount'⟩ :=
        ofAssignment_value hscope hsettled hcount hf ha
      obtain ⟨all, final, hall, hfinal, hlast⟩ := ih hnext hsettled' hcount' hgs hrest
      refine ⟨all, final, ?_, ?_, hlast⟩
      · rw [evaluateInOrder, hfv]
        exact hall
      · rw [Environment.extend, hvalue]
        exact hfinal

end Function

/-- Compilation keeps the meaning. When a where clause and an expression compile, the function of
the expression, evaluated over the compiled assignments, has the value that the two trees have by
names, whatever the operations and the parameter are. -/
theorem compile_preserves_value {clause source : String} {axis : Option String}
    {assigns : List Function} {scope : Scope} {f : Function}
    (hclause : compileAssignments clause = .ok (assigns, scope))
    (hsource : compileExpr source scope axis = .ok f) {α : Type} (ops : Arithmetic α) (t : α) :
    ∃ as e v, parseAssignments clause = .ok as ∧ parseExpr source axis = .ok e ∧
      f.evaluateWith ops assigns t = some v ∧
      Environment.valueAfter ops t clause as source e = some v := by
  obtain ⟨as, has, hassigns⟩ := Outcome.bind_eq_ok_iff.1 hclause
  obtain ⟨e, he, hf⟩ := Outcome.bind_eq_ok_iff.1 hsource
  obtain ⟨all, final, hall, hfinal, hscope⟩ :=
    Function.ofAssignments_value (Scope.describes_initial ops t) rfl rfl
      (Outcome.mapError_eq_ok_iff.1 hassigns) (areWritten_of_parseAssignments has)
  obtain ⟨v, hfv, hev⟩ := Function.ofTree_value hscope e (Outcome.mapError_eq_ok_iff.1 hf)
    (areWritten_of_parseExpr he)
  refine ⟨as, e, v, has, he, ?_, ?_⟩
  · rw [Function.evaluateWith, hall]
    exact hfv
  · rw [Environment.valueAfter, hfinal]
    exact hev

theorem compile_preserves_value_product :
    ∃ assigns scope f as e v, compileAssignments "u = -t" = .ok (assigns, scope) ∧
      compileExpr "u * t" scope none = .ok f ∧ parseAssignments "u = -t" = .ok as ∧
      parseExpr "u * t" none = .ok e ∧ f.evaluateWith .double assigns 0.5 = some v ∧
      Environment.valueAfter .double 0.5 "u = -t" as "u * t" e = some v := by
  have hclause : scan "u = -t" = .ok
      ⟨[⟨.ident, "u", ⟨0, 1, 1⟩⟩, ⟨.equals, "=", ⟨2, 1, 3⟩⟩, ⟨.minus, "-", ⟨4, 1, 5⟩⟩,
        ⟨.ident, "t", ⟨5, 1, 6⟩⟩], ⟨6, 1, 7⟩⟩ := by
    decide +kernel
  have hsource : scan "u * t" = .ok
      ⟨[⟨.ident, "u", ⟨0, 1, 1⟩⟩, ⟨.star, "*", ⟨2, 1, 3⟩⟩, ⟨.ident, "t", ⟨4, 1, 5⟩⟩],
        ⟨5, 1, 6⟩⟩ := by
    decide +kernel
  have hfits : Assignment.Fits
      ⟨⟨"u", ⟨0, 1, 1⟩⟩, .chain (.chain (.signed true (.chain
        (.plain (.variable ⟨"t", ⟨5, 1, 6⟩⟩)) .done)) .done) .done⟩
      ⟨⟨.ident, "u", ⟨0, 1, 1⟩⟩, ⟨.equals, "=", ⟨2, 1, 3⟩⟩,
        [⟨.minus, "-", ⟨4, 1, 5⟩⟩, ⟨.ident, "t", ⟨5, 1, 6⟩⟩]⟩ :=
    ⟨rfl, by decide⟩
  have hfit : Fit
      (Tree.chain (c := .sum)
        (.chain (.signed false (.chain (.plain (.variable ⟨"u", ⟨0, 1, 1⟩⟩)) .done))
          (.step ⟨.times, ⟨2, 1, 3⟩⟩
            (.signed false (.chain (.plain (.variable ⟨"t", ⟨4, 1, 5⟩⟩)) .done)) .done))
        .done).flatten
      [⟨.ident, "u", ⟨0, 1, 1⟩⟩, ⟨.star, "*", ⟨2, 1, 3⟩⟩, ⟨.ident, "t", ⟨4, 1, 5⟩⟩] := by
    decide
  have hnone : ∀ tok ∈ ([] : List Token), tok.Separates := by
    simp
  have hvalid : AssignmentTokens.Valid _ :=
    ⟨rfl, rfl, isExpr_of_fit hfits.value (by decide)⟩
  have has := (parseAssignments_eq_ok_iff hclause).2
    ⟨_, .bare (.first hnone hvalid (.done hnone)), .cons hfits .nil⟩
  have hcurve : IsCurveExpr none _ _ := ⟨⟨[], rfl, .inl rfl⟩, isExpr_of_fit hfit (by decide)⟩
  have he := (parseExpr_eq_ok_iff hsource).2 ⟨_, hcurve, hfit⟩
  have hassigns : compileAssignments "u = -t" =
      .ok ([.neg .parameter], ⟨[("t", none), ("u", some 0)], none, 1⟩) := by
    rw [compileAssignments, has]
    rfl
  have hf : compileExpr "u * t" ⟨[("t", none), ("u", some 0)], none, 1⟩ none =
      .ok (.product [(.times, .ref 0), (.times, .parameter)]) := by
    rw [compileExpr, he]
    rfl
  obtain ⟨as, e, v, h⟩ := compile_preserves_value hassigns hf .double 0.5
  exact ⟨_, _, _, as, e, v, hassigns, hf, h⟩

end FlightCurve

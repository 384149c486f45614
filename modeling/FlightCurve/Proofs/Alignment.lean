import FlightCurve.Proofs.Clause
import FlightCurve.Proofs.Naming

/-!
Assignments, their names and their indices. Three lists come out of a where clause: the targets as
they are written, the names of its scope and the functions; and the scope gives every name an index.

The main statement is that the lists are in step for every clause that compiles, so that a name, as
a source of its own, is compiled to a reference to its own assignment, and that no other identifier
is known.
-/

namespace FlightCurve

/-! Targets as they are written -/

/-- The texts of the tokens right before an equals sign. -/
def wordsBeforeEquals : List Token → List String
  | [] => []
  | tok :: rest =>
      if rest.head?.map Token.kind = some .equals then tok.text :: wordsBeforeEquals rest
      else wordsBeforeEquals rest

theorem head?_append_ne_equals {ts rest : List Token} (hts : ∀ tok ∈ ts, tok.kind ≠ .equals)
    (hrest : rest.head?.map Token.kind ≠ some .equals) :
    (ts ++ rest).head?.map Token.kind ≠ some .equals := by
  cases ts with
  | nil => exact hrest
  | cons tok ts =>
      rw [List.forall_mem_cons] at hts
      simpa using hts.1

/-- Tokens without an equals sign add nothing, if none comes next either. -/
theorem wordsBeforeEquals_append {ts rest : List Token} (hts : ∀ tok ∈ ts, tok.kind ≠ .equals)
    (hrest : rest.head?.map Token.kind ≠ some .equals) :
    wordsBeforeEquals (ts ++ rest) = wordsBeforeEquals rest := by
  induction ts with
  | nil => rfl
  | cons tok ts ih =>
      rw [List.forall_mem_cons] at hts
      rw [List.cons_append, wordsBeforeEquals, if_neg (head?_append_ne_equals hts.2 hrest),
        ih hts.2]

theorem Token.Separates.kind_ne_equals {tok : Token} (h : tok.Separates) : tok.kind ≠ .equals := by
  intro hkind
  rcases h with h | h <;>
  · rw [h] at hkind
    cases hkind

theorem kind_ne_equals_of_separates {seps : List Token} (h : ∀ tok ∈ seps, tok.Separates) :
    ∀ tok ∈ seps, tok.kind ≠ .equals :=
  fun tok htok => (h tok htok).kind_ne_equals

theorem AssignmentTokens.Valid.head?_ne_equals {a : AssignmentTokens} (h : a.Valid)
    (rest : List Token) : (a.all ++ rest).head?.map Token.kind ≠ some .equals := by
  rw [AssignmentTokens.all, List.cons_append, List.head?_cons, Option.map_some, h.ident]
  decide

/-- An assignment adds its target. -/
theorem AssignmentTokens.Valid.wordsBeforeEquals_append {a : AssignmentTokens} (h : a.Valid)
    {rest : List Token} (hrest : rest.head?.map Token.kind ≠ some .equals) :
    wordsBeforeEquals (a.all ++ rest) = a.target.text :: wordsBeforeEquals rest := by
  have hvalue : ∀ tok ∈ a.value, tok.kind ≠ .equals :=
    fun tok htok => (h.value.derives.kind_ne tok htok).1
  have hsign : (a.sign :: (a.value ++ rest)).head?.map Token.kind = some .equals :=
    congrArg some h.equals
  rw [AssignmentTokens.all, List.cons_append, List.cons_append, wordsBeforeEquals, if_pos hsign,
    wordsBeforeEquals, if_neg (head?_append_ne_equals hvalue hrest),
    FlightCurve.wordsBeforeEquals_append hvalue hrest]

theorem MoreAssignments.head?_ne_equals {all : List AssignmentTokens} {ts : List Token}
    (h : MoreAssignments all ts) : ts.head?.map Token.kind ≠ some .equals := by
  rw [ne_eq, Option.map_eq_some_iff]
  rintro ⟨tok, htok, hkind⟩
  exact (h.head_separates tok htok).kind_ne_equals hkind

namespace SeparatedAssignments

variable {all : List AssignmentTokens} {ts : List Token}

theorem head?_ne_equals (h : SeparatedAssignments all ts) :
    ts.head?.map Token.kind ≠ some .equals := by
  cases h with
  | empty separates =>
      rw [← List.append_nil ts]
      exact head?_append_ne_equals (kind_ne_equals_of_separates separates) (by simp)
  | first separates valid rest =>
      exact head?_append_ne_equals (kind_ne_equals_of_separates separates) (valid.head?_ne_equals _)

/-- What stands before the equals signs of assignments are their targets. -/
theorem wordsBeforeEquals_eq (h : SeparatedAssignments all ts) :
    wordsBeforeEquals ts = all.map (·.target.text) := by
  induction all generalizing ts with
  | nil =>
      cases h with
      | empty separates =>
          rw [← List.append_nil ts]
          exact wordsBeforeEquals_append (kind_ne_equals_of_separates separates) (by simp)
  | cons a all ih =>
      cases h with
      | @first seps us _ _ separates valid rest =>
          have hseps := kind_ne_equals_of_separates separates
          rw [wordsBeforeEquals_append hseps (valid.head?_ne_equals us),
            valid.wordsBeforeEquals_append rest.head?_ne_equals, ih rest.separated, List.map_cons]

end SeparatedAssignments

theorem IsClause.wordsBeforeEquals_eq {all : List AssignmentTokens} {ts : List Token}
    (h : IsClause all ts) : wordsBeforeEquals ts = all.map (·.target.text) := by
  cases h with
  | bare assignments => exact assignments.wordsBeforeEquals_eq
  | keyword _ _ assignments =>
      rw [wordsBeforeEquals, if_neg assignments.head?_ne_equals, assignments.wordsBeforeEquals_eq]

/-- The targets that are read are those that are written. -/
theorem wordsBeforeEquals_of_parseAssignments {source : String} {s : Scanned}
    (hs : scan source = .ok s) {as : List Assignment} (h : parseAssignments source = .ok as) :
    wordsBeforeEquals (clauseTokens s.tokens) = as.map (·.target.value) := by
  obtain ⟨all, hall, hfits⟩ := (parseAssignments_eq_ok_iff hs).1 h
  rw [hall.wordsBeforeEquals_eq]
  clear hall h
  induction hfits with
  | nil => rfl
  | cons hfirst _ ih =>
      rw [List.map_cons, List.map_cons, ih, hfirst.target]
      rfl

/-! Functions of assignments -/

/-- The function of an assignment is that of its right side, while its own name is hidden. -/
theorem Function.ofTree_of_ofAssignment {scope next : Scope} {a : Assignment} {f : Function}
    (h : ofAssignment scope a = .ok (f, next)) :
    ofTree (scope.define a.target.value) a.value = .ok f := by
  unfold ofAssignment at h
  split at h
  · cases h
  · split at h
    · cases h
    · obtain ⟨g, hg, h⟩ := Outcome.bind_eq_ok_iff.1 h
      cases h
      exact hg

/-- Each of the functions is what its own assignment is compiled to, in the scope of the names
before it. -/
theorem Function.getElem?_of_ofAssignments {names : List String} (hnames : IsNaming names)
    {as : List Assignment} {fs : List Function} {scope : Scope}
    (h : ofAssignments (.ofNames names) as = .ok (fs, scope)) {i : Nat} {a : Assignment}
    (ha : as[i]? = some a) :
    ∃ f, fs[i]? = some f ∧
      ofTree ((Scope.ofNames (names ++ (as.take i).map (·.target.value))).define a.target.value)
        a.value = .ok f := by
  induction as generalizing names fs i with
  | nil => cases ha
  | cons b as ih =>
      simp only [ofAssignments] at h
      obtain ⟨⟨f, next⟩, hf, h⟩ := Outcome.bind_eq_ok_iff.1 h
      obtain ⟨⟨gs, last⟩, hgs, h⟩ := Outcome.bind_eq_ok_iff.1 h
      cases h
      cases i with
      | zero =>
          cases ha
          refine ⟨f, rfl, ?_⟩
          rw [List.take_zero, List.map_nil, List.append_nil]
          exact ofTree_of_ofAssignment hf
      | succ i =>
          obtain ⟨hindex, hconstant⟩ := new_of_ofAssignment hf
          obtain ⟨hparameter, hnew⟩ :=
            (Scope.index?_ofNames_eq_none_iff hnames.distinct hnames.noParameter).1 hindex
          obtain rfl := scope_of_ofAssignment hf
          rw [Scope.settle_define_ofNames hindex] at hgs
          obtain ⟨g, hg, hvalue⟩ := ih (hnames.concat hnew hparameter hconstant) hgs ha
          refine ⟨g, hg, ?_⟩
          rwa [List.take_succ_cons, List.map_cons, List.append_cons]

/-! Sources of one word -/

/-- The tree of a source that is a single name. -/
def Tree.ofWord (word : Placed String) : Expr :=
  .chain (.chain (.signed false (.chain (.plain (.variable word)) .done)) .done) .done

theorem Function.ofTree_ofWord (scope : Scope) (word : Placed String) :
    ofTree scope (Tree.ofWord word) = ofName scope word := by
  simp only [Tree.ofWord, ofTree, ofTail]
  cases ofName scope word <;> rfl

/-- A name on its own means what it is bound to. -/
theorem compileExpr_word {word : String} (h : IsLexeme (.ident, word)) (scope : Scope)
    (axis : Option String) :
    compileExpr word scope axis =
      (Function.ofName scope ⟨word, .start⟩).mapError (.inSource word) := by
  let tok : Token := ⟨.ident, word, .start⟩
  have hscan : scan word = .ok ⟨[tok], Position.start.advance word.toList⟩ := by
    have hfirst := scanFrom_lexeme h .start Lexer.spaceFirst_nil
    rwa [List.append_nil, Lexer.scanFrom_nil] at hfirst
  have hbody : IsExpr [tok] :=
    ⟨.operand (.operand (.unsigned (.operand (.plain (.name rfl))))), Nat.zero_le maxNesting⟩
  have hcurve : IsCurveExpr axis (withoutNewlines [tok]) [tok] := ⟨⟨[], rfl, .inl rfl⟩, hbody⟩
  have hleaf : (Leaf.placed .ident tok.placed).Fits tok := Leaf.fits_placed rfl
  have hfit : Fit (Tree.ofWord ⟨word, .start⟩).flatten [tok] := .cons hleaf .nil
  have hparse := (parseExpr_eq_ok_iff hscan).2 ⟨[tok], hcurve, hfit⟩
  rw [compileExpr, hparse, ← Function.ofTree_ofWord]
  rfl

theorem Function.ofName_ofNames {names : List String} (hnames : IsNaming names) {i : Nat}
    {word : Placed String} (hword : names[i]? = some word.value) :
    ofName (.ofNames names) word = .ok (.ref i) := by
  have hconstant := hnames.noConstant word.value (List.mem_of_getElem? hword)
  unfold ofName
  simp only [hconstant, Scope.visible?_ofNames,
    Scope.index?_ofNames hnames.distinct hnames.noParameter hword]

theorem Function.ofName_ofNames_unknown {names : List String} (hnames : IsNaming names)
    {word : Placed String} (hconstant : constant? word.value = none)
    (hparameter : word.value ≠ parameterName) (hnew : word.value ∉ names) :
    ofName (.ofNames names) word = .error ⟨.unknownVariable word.value, word.position⟩ := by
  have hindex := (Scope.index?_ofNames_eq_none_iff hnames.distinct hnames.noParameter).2
    ⟨hparameter, hnew⟩
  unfold ofName
  simp only [hconstant, Scope.visible?_ofNames, hindex]

/-! Clauses -/

/-- The functions and the scope of a where clause are in step with its assignments, which were read
from the tokens `ts`. -/
structure IsAligned (ts : List Token) (as : List Assignment) (fs : List Function) (scope : Scope) :
    Prop where
  names_length : scope.names.length = as.length
  functions_length : fs.length = as.length
  names_written : scope.names = wordsBeforeEquals ts
  names_read : ∀ (i : Nat) (a : Assignment), as[i]? = some a → scope.names[i]? = some a.target.value
  functions : ∀ (i : Nat) (a : Assignment), as[i]? = some a → ∃ f, fs[i]? = some f ∧
    Function.ofTree ((Scope.ofNames (scope.names.take i)).define a.target.value) a.value = .ok f
  distinct : scope.names.Nodup
  noParameter : parameterName ∉ scope.names
  noConstant : ∀ name ∈ scope.names, constant? name = none
  known : ∀ (i : Nat) (word : String), scope.names[i]? = some word →
    ∀ axis, compileExpr word scope axis = .ok (.ref i)
  unknown : ∀ word, IsLexeme (.ident, word) → word ≠ parameterName → constant? word = none →
    word ∉ scope.names → ∀ axis, compileExpr word scope axis =
      .error (.inSource word ⟨.unknownVariable word, .start⟩)

/-- Whatever where clause compiles, its names are the targets of its assignments in the order of the
text, all different, none of them the parameter or a constant. There is one function for each, made
from the right side of that assignment. The source that is just the name at a place compiles to the
reference with that index, and the source that is just another identifier is rejected. -/
theorem compileAssignments_isAligned {source : String} {fs : List Function} {scope : Scope}
    (h : compileAssignments source = .ok (fs, scope)) :
    ∃ s as, scan source = .ok s ∧ parseAssignments source = .ok as ∧
      IsAligned (clauseTokens s.tokens) as fs scope := by
  obtain ⟨hnaming, hlexemes, hscope⟩ := naming_of_compileAssignments h
  obtain ⟨_, _, hcount⟩ := compileAssignments_eq_ok h
  obtain ⟨as, has, hcompiled⟩ := Outcome.bind_eq_ok_iff.1 h
  obtain ⟨s, hs⟩ := exists_scan_of_read has
  rw [Outcome.mapError_eq_ok_iff] at hcompiled
  have hnames : scope.names = as.map (·.target.value) := by
    obtain ⟨_, rfl⟩ := Function.scope_of_ofAssignments isNaming_nil hcompiled
    rw [Scope.names_ofNames, List.nil_append]
  have hlength : scope.names.length = as.length := by rw [hnames, List.length_map]
  refine ⟨s, as, hs, has, ?_⟩
  exact
    { names_length := hlength
      functions_length := by
        rw [← hcount, hscope, ← hlength]
        rfl
      names_written := hnames.trans (wordsBeforeEquals_of_parseAssignments hs has).symm
      names_read := by
        intro i a ha
        rw [hnames, List.getElem?_map, ha, Option.map_some]
      functions := by
        intro i a ha
        have hfunction := Function.getElem?_of_ofAssignments isNaming_nil hcompiled ha
        rwa [List.nil_append, List.map_take, ← hnames] at hfunction
      distinct := hnaming.distinct
      noParameter := hnaming.noParameter
      noConstant := hnaming.noConstant
      known := by
        intro i word hword axis
        rw [compileExpr_word (hlexemes word (List.mem_of_getElem? hword)), hscope,
          Function.ofName_ofNames hnaming hword]
        rfl
      unknown := by
        intro word hword hparameter hconstant hnew axis
        rw [compileExpr_word hword, hscope,
          Function.ofName_ofNames_unknown hnaming hconstant hparameter hnew]
        rfl }

/-- A clause of two assignments, one of its names, and a function name, which is no variable. -/
theorem compileAssignments_isAligned_chain :
    ∃ fs scope, compileAssignments "u = 2\nv = u + t" = .ok (fs, scope) ∧
      scope.names = ["u", "v"] ∧ fs.length = 2 ∧
      compileExpr "v" scope (some "x") = .ok (.ref 1) ∧
      compileExpr "sin" scope none =
        .error (.inSource "sin" ⟨.unknownVariable "sin", .start⟩) := by
  have hok : (compileAssignments "u = 2\nv = u + t").toOption.map (·.2) =
      some (Scope.ofNames ["u", "v"]) := by
    decide +kernel
  cases h : compileAssignments "u = 2\nv = u + t" with
  | error e =>
      rw [h] at hok
      cases hok
  | ok r =>
      obtain ⟨fs, scope⟩ := r
      rw [h] at hok
      obtain rfl : scope = Scope.ofNames ["u", "v"] := Option.some.inj hok
      obtain ⟨_, as, _, _, haligned⟩ := compileAssignments_isAligned h
      refine ⟨fs, _, rfl, rfl, ?_, haligned.known 1 "v" rfl _, ?_⟩
      · rw [haligned.functions_length, ← haligned.names_length]
        rfl
      · exact haligned.unknown "sin" (by decide) (by decide) rfl (by decide) none

end FlightCurve

import FlightCurve.Proofs.Appending
import FlightCurve.Proofs.Renaming.Compiling
import FlightCurve.Proofs.Renaming.InPlace

/-!
Renaming. Targets of assignments and variables may be called otherwise, even as a function or as the
word before the assignments, as long as different names stay different, and the parameter and the
constants stay what they are.

The main statement is that the renamed sources compile exactly if the original ones do, to the same
functions, and that they are rejected for the same cause at the same token. They have to be cut into
the renamed tokens, and so they are when the words are renamed where they stand, unless a name that
begins like an exponent comes to stand directly behind a number literal.
-/

namespace FlightCurve

/-! Words -/

def Role.isCall : Role → Bool
  | .call _ => true
  | _ => false

/-- The words among occurrences that are renamed: targets and variables, not the names of calls. -/
def Occurrence.renamable (occurrences : List Occurrence) : List (Placed String) :=
  (occurrences.filter fun o => !o.role.isCall).map word

/-- The targets and variables of a where clause. -/
def clauseWords (as : List Assignment) : List (Placed String) :=
  Occurrence.renamable (Occurrence.ofClause as)

/-- The variables of an expression. -/
def Tree.variables (e : Expr) : List (Placed String) := Occurrence.renamable (e.occurrences [])

/-- Identifiers become identifiers, the parameter and the constants stay and nothing else becomes
one of them, and no two names among the words become one. -/
structure IsRenaming (name : String → String) (words : List (Placed String)) : Prop where
  ident : ∀ n, IsLexeme (.ident, n) → IsLexeme (.ident, name n)
  parameter : name parameterName = parameterName
  constants : ∀ n, constant? n ≠ none → name n = n
  noParameter : ∀ n, IsLexeme (.ident, n) → name n = parameterName → n = parameterName
  noConstant : ∀ n, IsLexeme (.ident, n) → constant? (name n) ≠ none → constant? n ≠ none
  injective : ∀ v ∈ words, ∀ w ∈ words, name v.value = name w.value → v.value = w.value

/-- The second source is cut into the tokens of the first one, with the words renamed. -/
def RenamesTo (name : String → String) (words : List (Placed String)) (source source' : String) :
    Prop :=
  ∃ s s', scan source = .ok s ∧ scan source' = .ok s' ∧
    s'.tokens.map Token.lexeme = s.tokens.map fun tok => (tok.kind, tok.renamedText name words)

/-- The errors have the same cause, under the new names, and are reported at the same token. -/
def CompileError.CorrespondsTo (name : String → String) (source source' : String)
    (e e' : CompileError) : Prop :=
  ∃ (s s' : Scanned) (i : Nat) (tok tok' : Token) (cause : Cause),
    scan source = .ok s ∧ scan source' = .ok s' ∧
    s.tokens[i]? = some tok ∧ s'.tokens[i]? = some tok' ∧
    e = .inSource source ⟨cause, tok.position⟩ ∧
    e' = .inSource source' ⟨cause.renamed name, tok'.position⟩

/-- A where clause and an expression compile exactly if two others do: to the same functions, with
the names renamed, or else they are rejected with errors that correspond. -/
structure CompilesAlike (name : String → String) (axis : Option String)
    (clause source clause' source' : String) : Prop where
  assignments : ∀ fs scope, compileAssignments clause = .ok (fs, scope) →
    ∃ scope', compileAssignments clause' = .ok (fs, scope') ∧
      scope'.names = scope.names.map name ∧
      (∀ f, compileExpr source scope axis = .ok f → compileExpr source' scope' axis = .ok f) ∧
      ∀ e, compileExpr source scope axis = .error e →
        ∃ e', compileExpr source' scope' axis = .error e' ∧ e.CorrespondsTo name source source' e'
  rejected : ∀ e, compileAssignments clause = .error e →
    ∃ e', compileAssignments clause' = .error e' ∧ e.CorrespondsTo name clause clause' e'

/-- No number literal of the source can take the new name of a word behind it for its exponent. -/
def KeepsLiterals (name : String → String) (words : List (Placed String)) (source : String) :
    Prop :=
  ∀ s, scan source = .ok s → ∀ tok ∈ s.tokens, ∀ next ∈ s.tokens,
    ¬Lexer.MayJoin (Token.renamedText name words) tok next

/-! Renamed tokens -/

/-- Tokens that stand at different places are moved to the places of others. -/
theorem exists_place {ts ts' : List Token} (hnodup : (ts.map Token.position).Nodup)
    {text : Token → String}
    (hlexemes : ts'.map Token.lexeme = ts.map fun tok => (tok.kind, text tok)) :
    ∃ place : Position → Position,
      ts' = ts.map fun tok => ⟨tok.kind, text tok, place tok.position⟩ := by
  induction ts generalizing ts' with
  | nil => exact ⟨id, List.map_eq_nil_iff.1 hlexemes⟩
  | cons tok ts ih =>
      rw [List.map_cons, List.nodup_cons] at hnodup
      obtain ⟨tok', ts', rfl, htok, hts⟩ := List.map_eq_cons_iff.1 hlexemes
      obtain ⟨place, rfl⟩ := ih hnodup.2 hts
      obtain ⟨kind', text', position'⟩ := tok'
      obtain ⟨rfl, rfl⟩ := Prod.mk.inj htok
      refine ⟨fun p => if p = tok.position then position' else place p, ?_⟩
      refine congrArg₂ List.cons ?_ (List.map_congr_left fun next hnext => ?_)
      · exact congrArg (Token.mk _ _) (if_pos rfl).symm
      · have hne : next.position ≠ tok.position := fun heq =>
          hnodup.1 (heq ▸ List.mem_map_of_mem hnext)
        exact congrArg (Token.mk _ _) (if_neg hne).symm

section Sources

variable {source source' : String} {name : String → String} {words : List (Placed String)}

theorem RenamesTo.exists_renaming (h : RenamesTo name words source source') :
    ∃ R : Renaming, R.words = words ∧ R.name = name ∧ ∃ s s', scan source = .ok s ∧
      scan source' = .ok s' ∧ s'.tokens = s.tokens.map R.token := by
  obtain ⟨s, s', hs, hs', hlexemes⟩ := h
  obtain ⟨place, hplace⟩ := exists_place (nodup_position_of_scan hs) hlexemes
  exact ⟨⟨words, name, place⟩, rfl, rfl, s, s', hs, hs', hplace⟩

/-- The fault of an occurrence lies at the same token when words are renamed. -/
theorem correspondsTo_of_fault {R : Renaming} {s s' : Scanned} (hs : scan source = .ok s)
    (hs' : scan source' = .ok s') (htokens : s'.tokens = s.tokens.map R.token)
    {occurrences : List Occurrence} (hstates : s.States occurrences) {fault : Placed Cause}
    (hfault : occurrences.findSome? Occurrence.fault? = some fault) :
    (CompileError.inSource source fault).CorrespondsTo R.name source source'
      (.inSource source' (R.fault fault)) := by
  obtain ⟨ts, hts, hwords⟩ := hstates
  obtain ⟨tok, htok, _, hposition⟩ := Occurrence.exists_identifier_of_fault hwords hfault
  obtain ⟨cause, p⟩ := fault
  obtain rfl : tok.position = p := hposition
  obtain ⟨i, hi⟩ := List.getElem?_of_mem (hts.mem htok)
  refine ⟨s, s', i, tok, R.token tok, cause, hs, hs', hi, ?_, rfl, rfl⟩
  rw [htokens, List.getElem?_map, hi]
  rfl

/-- Words that are renamed where they stand are renamed in the tokens, if literals are kept. -/
theorem renamesTo_renameIn (hident : ∀ n, IsLexeme (.ident, n) → IsLexeme (.ident, name n))
    {s : Scanned} (hs : scan source = .ok s) (hkeeps : KeepsLiterals name words source) :
    RenamesTo name words source (renameIn name words source) := by
  have hwrite : ∀ tok ∈ s.tokens, Lexer.Respells (Token.renamedText name words) tok := by
    intro tok htok
    rw [Lexer.Respells, Token.renamedText]
    split
    · rename_i hword
      have hlexeme : IsLexeme (tok.kind, tok.text) :=
        Token.isWritten_iff.1 (isWritten_of_scan hs tok htok)
      rw [hword.1] at hlexeme
      exact .inr ⟨hword.1, hident _ hlexeme⟩
    · exact .inl rfl
  obtain ⟨s', hs', hlexemes⟩ :=
    (Lexer.scans_of_scanFrom hs).scanFrom_respell hwrite (hkeeps s hs) .start
  refine ⟨s, s', hs, ?_, hlexemes⟩
  rw [renameIn, hs, scan]
  simp only [String.toList_ofList]
  exact hs'

end Sources

/-! Names of the words -/

theorem Occurrence.mem_renamable {occurrences : List Occurrence} {o : Occurrence}
    (ho : o ∈ occurrences) (hrole : o.role.isCall = false) : o.word ∈ renamable occurrences :=
  List.mem_map_of_mem (List.mem_filter.2 ⟨ho, by simp [hrole]⟩)

theorem Occurrence.renamable_subset {occurrences : List Occurrence} :
    ∀ w ∈ renamable occurrences, w ∈ occurrences.map word := by
  intro w hw
  obtain ⟨o, ho, rfl⟩ := List.mem_map.1 hw
  exact List.mem_map_of_mem (List.mem_filter.1 ho).1

/-- A renaming of the targets and variables suits all occurrences. -/
theorem Renaming.suits_of_renamable {R : Renaming} {occurrences : List Occurrence}
    (hwords : R.words = Occurrence.renamable occurrences)
    (hnodup : (occurrences.map Occurrence.word).Nodup) {names : List String}
    (hnames : ∀ w ∈ R.words, w.value ∈ names) : ∀ o ∈ occurrences, R.Suits names o := by
  intro o ho
  rw [Suits]
  cases hrole : o.role with
  | call arity =>
      simp only
      rw [hwords]
      intro hmem
      obtain ⟨o', ho', hword⟩ := List.mem_map.1 hmem
      rw [List.mem_filter] at ho'
      obtain rfl := List.inj_on_of_nodup_map hnodup ho'.1 ho hword
      rw [hrole] at ho'
      exact absurd ho'.2 (by simp [Role.isCall])
  | target =>
      have hmem : o.word ∈ R.words := hwords ▸ Occurrence.mem_renamable ho (by rw [hrole]; rfl)
      exact ⟨hmem, hnames _ hmem⟩
  | «variable» =>
      have hmem : o.word ∈ R.words := hwords ▸ Occurrence.mem_renamable ho (by rw [hrole]; rfl)
      exact ⟨hmem, hnames _ hmem⟩

theorem IsRenaming.keepsApart {R : Renaming} {words : List (Placed String)}
    (h : IsRenaming R.name words) (hident : ∀ w ∈ words, IsLexeme (.ident, w.value)) :
    R.KeepsApart (parameterName :: words.map Placed.value) where
  injective := by
    have hparameter : ∀ w ∈ words, R.name w.value = R.name parameterName →
        w.value = parameterName := fun w hw heq =>
      h.noParameter w.value (hident w hw) (heq.trans h.parameter)
    intro a ha b hb heq
    rw [List.mem_cons, List.mem_map] at ha hb
    rcases ha with rfl | ⟨v, hv, rfl⟩ <;> rcases hb with rfl | ⟨w, hw, rfl⟩
    · rfl
    · exact (hparameter w hw heq.symm).symm
    · exact hparameter v hv heq
    · exact h.injective v hv w hw heq
  constant := by
    intro a ha
    rcases List.mem_cons.1 ha with rfl | ha
    · rw [h.parameter]
    · obtain ⟨w, hw, rfl⟩ := List.mem_map.1 ha
      by_cases hconstant : constant? w.value = none
      · rw [hconstant]
        by_contra hne
        exact h.noConstant w.value (hident w hw) hne hconstant
      · rw [h.constants w.value hconstant]

theorem Scope.initial_renamed {name : String → String} (h : name parameterName = parameterName) :
    initial.renamed name = initial := by
  rw [renamed, initial]
  simp [h]

theorem Scope.within_initial {names : List String} (h : parameterName ∈ names) :
    initial.Within names :=
  ⟨List.forall_mem_singleton.2 h, fun _ hn => by cases hn⟩

/-! Single names -/

/-- One name is changed. -/
def renameOne (old new n : String) : String := if n = old then new else n

/-- A name may be changed to one that is not there yet. -/
theorem isRenaming_renameOne {old new : String} {words : List (Placed String)}
    (hnew : IsLexeme (.ident, new)) (hold : constant? old = none ∧ old ≠ parameterName)
    (hmeaning : constant? new = none ∧ new ≠ parameterName) (hfresh : ∀ w ∈ words, w.value ≠ new) :
    IsRenaming (renameOne old new) words where
  ident := by
    intro n hn
    rw [renameOne]
    split
    · exact hnew
    · exact hn
  parameter := if_neg hold.2.symm
  constants := by
    rintro n hn
    refine if_neg ?_
    rintro rfl
    exact hn hold.1
  noParameter := by
    intro n _ hn
    rw [renameOne] at hn
    split at hn
    · exact absurd hn hmeaning.2
    · exact hn
  noConstant := by
    intro n _ hn
    rw [renameOne] at hn
    split at hn
    · exact absurd hmeaning.1 hn
    · exact hn
  injective := by
    intro v hv w hw heq
    rw [renameOne, renameOne] at heq
    split at heq <;> split at heq
    · rename_i hv hw
      exact hv.trans hw.symm
    · exact absurd heq.symm (hfresh w hw)
    · exact absurd heq (hfresh v hv)
    · exact heq

/-- Literals are kept if no new name begins with the mark of an exponent. -/
theorem keepsLiterals_of_first {name : String → String}
    (h : ∀ n, name n ≠ n → ∃ c cs, (name n).toList = c :: cs ∧ c ∉ ['e', 'E'])
    (words : List (Placed String)) (source : String) : KeepsLiterals name words source := by
  intro s _ tok _ next _ hjoin
  have hanew := hjoin.anew
  obtain ⟨es, hne, hexponent, hfront⟩ := hjoin.exponent
  rw [Token.renamedText] at hanew hfront
  split at hanew
  · obtain ⟨c, cs, hname, hfirst⟩ := h next.text hanew
    rw [if_pos ‹_›, hname] at hfront
    cases hexponent with
    | absent => exact hne rfl
    | present mark_mem _ _ _ =>
        rcases hfront with hfront | hfront
        · exact hfirst ((List.cons_prefix_cons.1 hfront).1 ▸ mark_mem)
        · exact hfirst ((List.cons_prefix_cons.1 hfront).1 ▸ mark_mem)
  · exact hanew rfl

/-! Compiling renamed sources -/

section Compiling

variable {R : Renaming} {names : List String} {source source' : String} {s s' : Scanned}

theorem compileAssignments_renamed (hs : scan source = .ok s) (hs' : scan source' = .ok s')
    (htokens : s'.tokens = s.tokens.map R.token) (hR : R.KeepsApart names)
    (hparameter : R.name parameterName = parameterName) (hmem : parameterName ∈ names)
    {as : List Assignment} (has : parseAssignments source = .ok as)
    (hwords : R.words = clauseWords as) (hnames : ∀ w ∈ clauseWords as, w.value ∈ names) :
    (∀ fs scope, compileAssignments source = .ok (fs, scope) →
      compileAssignments source' = .ok (fs, scope.renamed R.name)) ∧
    ∀ e, compileAssignments source = .error e →
      ∃ e', compileAssignments source' = .error e' ∧
        e.CorrespondsTo R.name source source' e' := by
  have hstates := states_of_parseAssignments hs has
  have hsuits := R.suits_of_renamable hwords (hstates.nodup hs) (hwords ▸ hnames)
  have hcompile := Function.ofAssignments_renamed (Scope.within_initial hmem) hR hsuits
  rw [Scope.initial_renamed hparameter] at hcompile
  have hparse := parseAssignments_renamed R hs hs' htokens has
    (hwords ▸ Occurrence.renamable_subset)
  rw [compileAssignments, compileAssignments, has, hparse]
  change (∀ fs scope, (Function.ofAssignments .initial as).mapError _ = _ →
    (Function.ofAssignments .initial (as.map (·.renamed R))).mapError _ = _) ∧
    ∀ e, (Function.ofAssignments .initial as).mapError _ = _ →
      ∃ e', (Function.ofAssignments .initial (as.map (·.renamed R))).mapError _ = _ ∧ _
  rw [hcompile]
  cases hfs : Function.ofAssignments .initial as with
  | ok r =>
      refine ⟨?_, fun e he => by cases he⟩
      rintro _ _ ⟨⟩
      rfl
  | error fault =>
      refine ⟨fun fs scope hok => (by cases hok), ?_⟩
      rintro _ ⟨⟩
      refine ⟨_, rfl, correspondsTo_of_fault hs hs' htokens hstates ?_⟩
      rw [Occurrence.ofClause, ← Function.error?_ofAssignments Scope.binds_initial, hfs]
      rfl

theorem compileExpr_renamed (hs : scan source = .ok s) (hs' : scan source' = .ok s')
    (htokens : s'.tokens = s.tokens.map R.token) (hR : R.KeepsApart names) {scope : Scope}
    (hscope : scope.Within names) {axis : Option String} {e : Expr}
    (he : parseExpr source axis = .ok e) (hwords : R.words = e.variables)
    (hnames : ∀ w ∈ e.variables, w.value ∈ names) :
    (∀ f, compileExpr source scope axis = .ok f →
      compileExpr source' (scope.renamed R.name) axis = .ok f) ∧
    ∀ error, compileExpr source scope axis = .error error →
      ∃ error', compileExpr source' (scope.renamed R.name) axis = .error error' ∧
        error.CorrespondsTo R.name source source' error' := by
  have hnodup := (states_of_parseExpr hs he []).nodup hs
  have hsuits := R.suits_of_renamable hwords hnodup (hwords ▸ hnames)
  have hcompile := Function.ofTree_renamed hscope hR e hsuits
  have hparse := parseExpr_renamed R hs hs' htokens he (hwords ▸ Occurrence.renamable_subset)
  rw [compileExpr, compileExpr, he, hparse]
  change (∀ f, (Function.ofTree scope e).mapError _ = _ →
    (Function.ofTree (scope.renamed R.name) (e.renamed R)).mapError _ = _) ∧
    ∀ error, (Function.ofTree scope e).mapError _ = _ →
      ∃ error', (Function.ofTree (scope.renamed R.name) (e.renamed R)).mapError _ = _ ∧ _
  rw [hcompile]
  cases hf : Function.ofTree scope e with
  | ok f =>
      refine ⟨?_, fun error herror => by cases herror⟩
      rintro _ ⟨⟩
      rfl
  | error fault =>
      refine ⟨fun f hok => (by cases hok), ?_⟩
      rintro _ ⟨⟩
      obtain ⟨known, hknown⟩ := scope.exists_known
      have hstates := states_of_parseExpr hs he known
      refine ⟨_, rfl, correspondsTo_of_fault hs hs' htokens hstates ?_⟩
      rw [← Function.error?_ofTree hknown, hf]
      rfl

end Compiling

/-- Renaming targets and variables changes nothing but the names. Sources that are cut into the
renamed tokens compile exactly if the original ones do, to the same functions, or are rejected for
the same cause at the same token. Sources in which the words are renamed where they stand are cut
so, as long as no number literal can take a new name for its exponent. -/
theorem rename_changes_names_only {clause source : String} {axis : Option String}
    {as : List Assignment} {e : Expr} (has : parseAssignments clause = .ok as)
    (he : parseExpr source axis = .ok e) {name : String → String}
    (hname : IsRenaming name (clauseWords as ++ e.variables)) :
    (∀ clause' source', RenamesTo name (clauseWords as) clause clause' →
      RenamesTo name e.variables source source' →
        CompilesAlike name axis clause source clause' source') ∧
    (KeepsLiterals name (clauseWords as) clause →
      RenamesTo name (clauseWords as) clause (renameIn name (clauseWords as) clause)) ∧
    (KeepsLiterals name e.variables source →
      RenamesTo name e.variables source (renameIn name e.variables source)) := by
  obtain ⟨sc, hsc⟩ := exists_scan_of_read has
  obtain ⟨se, hse⟩ := exists_scan_of_read he
  refine ⟨?_, renamesTo_renameIn hname.ident hsc, renamesTo_renameIn hname.ident hse⟩
  intro clause' source' hclause hsource
  -- the words are identifiers, so that the renaming keeps the parameter and the constants apart
  have hident : ∀ w ∈ clauseWords as ++ e.variables, IsLexeme (.ident, w.value) := by
    intro w hw
    rcases List.mem_append.1 hw with hw | hw
    · obtain ⟨o, ho, rfl⟩ := List.mem_map.1 (Occurrence.renamable_subset w hw)
      exact (states_of_parseAssignments hsc has).isLexeme hsc o ho
    · obtain ⟨o, ho, rfl⟩ := List.mem_map.1 (Occurrence.renamable_subset w hw)
      exact (states_of_parseExpr hse he []).isLexeme hse o ho
  have hmem : ∀ w ∈ clauseWords as ++ e.variables,
      w.value ∈ parameterName :: (clauseWords as ++ e.variables).map Placed.value :=
    fun w hw => List.mem_cons_of_mem _ (List.mem_map_of_mem hw)
  rw [List.forall_mem_append] at hmem
  obtain ⟨R, hRwords, rfl, s, s', hs, hs', htokens⟩ := hclause.exists_renaming
  obtain ⟨Q, hQwords, hQname, u, u', hu, hu', hutokens⟩ := hsource.exists_renaming
  have hR := hname.keepsApart hident
  have hQ : Q.KeepsApart _ := (hQname ▸ hname : IsRenaming Q.name _).keepsApart hident
  obtain ⟨hok, herror⟩ := compileAssignments_renamed hs hs' htokens hR hname.parameter
    List.mem_cons_self has hRwords hmem.1
  refine ⟨?_, herror⟩
  intro fs scope hfs
  have hscope :
      scope.Within (parameterName :: (clauseWords as ++ e.variables).map Placed.value) := by
    obtain ⟨as', has', hof⟩ := Outcome.bind_eq_ok_iff.1 hfs
    obtain rfl := Except.ok.inj (has.symm.trans has')
    refine (Scope.within_initial List.mem_cons_self).ofAssignments (fun a ha => ?_)
      (Outcome.mapError_eq_ok_iff.1 hof)
    obtain ⟨o, ho, hrole, hword⟩ := Occurrence.exists_target_of_mem [parameterName] ha
    exact hword ▸ hmem.1 _ (Occurrence.mem_renamable ho (by rw [hrole]; rfl))
  obtain ⟨hexpr, hexprError⟩ := compileExpr_renamed hu hu' hutokens hQ hscope he
    hQwords hmem.2
  rw [hQname] at hexpr hexprError
  exact ⟨scope.renamed R.name, hok fs scope hfs, Scope.names_renamed R.name scope, hexpr,
    hexprError⟩

theorem rename_changes_names_only_function :
    ∃ as e, parseAssignments "u = t" = .ok as ∧ parseExpr "sin u" none = .ok e ∧
      IsRenaming (renameOne "u" "sin") (clauseWords as ++ e.variables) ∧
      CompilesAlike (renameOne "u" "sin") none "u = t" "sin u" "sin = t" "sin sin" ∧
      (compileAssignments "u = t").isOk = true := by
  have hclause : (parseAssignments "u = t").toOption.map (fun as =>
      ((clauseWords as).map Placed.value,
        renameIn (renameOne "u" "sin") (clauseWords as) "u = t")) =
      some (["u", "t"], "sin = t") := by
    decide +kernel
  have hsource : (parseExpr "sin u" none).toOption.map (fun e =>
      (e.variables.map Placed.value, renameIn (renameOne "u" "sin") e.variables "sin u")) =
      some (["u"], "sin sin") := by
    decide +kernel
  obtain ⟨as, has⟩ := Outcome.exists_eq_ok
    (show (parseAssignments "u = t").isOk = true by decide +kernel)
  obtain ⟨e, he⟩ := Outcome.exists_eq_ok
    (show (parseExpr "sin u" none).isOk = true by decide +kernel)
  rw [has] at hclause
  rw [he] at hsource
  obtain ⟨hwords, hrenamed⟩ := Prod.mk.inj (Option.some.inj hclause)
  obtain ⟨hvariables, hrenamed'⟩ := Prod.mk.inj (Option.some.inj hsource)
  have hname : IsRenaming (renameOne "u" "sin") (clauseWords as ++ e.variables) := by
    refine isRenaming_renameOne (by decide) (by decide) (by decide) ?_
    rw [← List.forall_mem_map (P := (· ≠ "sin")), List.map_append, hwords, hvariables]
    decide
  have hkeeps : ∀ words source, KeepsLiterals (renameOne "u" "sin") words source := by
    refine keepsLiterals_of_first fun n hn => ?_
    rcases eq_or_ne "u" n with rfl | hold
    · exact ⟨'s', ['i', 'n'], rfl, by decide⟩
    · exact absurd (if_neg hold.symm) hn
  obtain ⟨halike, hclause', hsource'⟩ := rename_changes_names_only has he hname
  rw [← hrenamed, ← hrenamed']
  exact ⟨as, e, has, he, hname, halike _ _ (hclause' (hkeeps _ _)) (hsource' (hkeeps _ _)),
    by decide +kernel⟩

/-- A new name is lost where a number literal takes it for its exponent. -/
theorem rename_joins_literal :
    ∃ as e, parseAssignments "x = 1" = .ok as ∧ parseExpr "max 2x" none = .ok e ∧
      IsRenaming (renameOne "x" "e5") (clauseWords as ++ e.variables) ∧
      renameIn (renameOne "x" "e5") (clauseWords as) "x = 1" = "e5 = 1" ∧
      renameIn (renameOne "x" "e5") e.variables "max 2x" = "max 2e5" ∧
      ¬CompilesAlike (renameOne "x" "e5") none "x = 1" "max 2x" "e5 = 1" "max 2e5" := by
  have hclause : (parseAssignments "x = 1").toOption.map (fun as =>
      ((clauseWords as).map Placed.value,
        renameIn (renameOne "x" "e5") (clauseWords as) "x = 1")) = some (["x"], "e5 = 1") := by
    decide +kernel
  have hsource : (parseExpr "max 2x" none).toOption.map (fun e =>
      (e.variables.map Placed.value, renameIn (renameOne "x" "e5") e.variables "max 2x")) =
      some (["x"], "max 2e5") := by
    decide +kernel
  obtain ⟨as, has⟩ := Outcome.exists_eq_ok
    (show (parseAssignments "x = 1").isOk = true by decide +kernel)
  obtain ⟨e, he⟩ := Outcome.exists_eq_ok
    (show (parseExpr "max 2x" none).isOk = true by decide +kernel)
  rw [has] at hclause
  rw [he] at hsource
  obtain ⟨hwords, hrenamed⟩ := Prod.mk.inj (Option.some.inj hclause)
  obtain ⟨hvariables, hrenamed'⟩ := Prod.mk.inj (Option.some.inj hsource)
  have hname : IsRenaming (renameOne "x" "e5") (clauseWords as ++ e.variables) := by
    refine isRenaming_renameOne (by decide) (by decide) (by decide) ?_
    rw [← List.forall_mem_map (P := (· ≠ "e5")), List.map_append, hwords, hvariables]
    decide
  refine ⟨as, e, has, he, hname, hrenamed, hrenamed', fun halike => ?_⟩
  obtain ⟨⟨fs, scope⟩, hfs⟩ := Outcome.exists_eq_ok
    (show (compileAssignments "x = 1").isOk = true by decide +kernel)
  have hcompiles : (do
      let r ← compileAssignments "x = 1"
      compileExpr "max 2x" r.2 none).isOk = true := by
    decide +kernel
  rw [hfs] at hcompiles
  obtain ⟨f, hf⟩ := Outcome.exists_eq_ok hcompiles
  obtain ⟨scope', hfs', _, hexpr, _⟩ := halike.assignments fs scope hfs
  have hrejected : (do
      let r ← compileAssignments "e5 = 1"
      compileExpr "max 2e5" r.2 none).isOk = false := by
    decide +kernel
  rw [hfs'] at hrejected
  change (compileExpr "max 2e5" scope' none).isOk = false at hrejected
  rw [hexpr f hf] at hrejected
  cases hrejected

end FlightCurve

import FlightCurve.Proofs.Occurrences

/-!
Occurrences without a meaning. Compiling reports the first occurrence in the text that offends,
because trees are compiled from left to right and each check of a name stands before what follows
the name.

The main statement says so of where clauses and of curve expressions, and that names do not matter
in a source that is not well-formed.
-/

namespace FlightCurve

namespace Occurrence

/-- An occurrence has no meaning: a target is known already or is a constant, a called name is no
function of so many arguments, or a variable is neither a constant nor known. -/
inductive Offends (o : Occurrence) : Cause → Prop
  | alreadyDefined (target : o.role = .target) (known : o.word.value ∈ o.known) :
      Offends o (.alreadyDefined o.word.value)
  | constantTarget (target : o.role = .target) (constant : constant? o.word.value ≠ none) :
      Offends o (.constantTarget o.word.value)
  | unknownUnary (call : o.role = .call .one) (unknown : UnaryFn.ofName? o.word.value = none) :
      Offends o (.unknownFunction .one o.word.value)
  | unknownBinary (call : o.role = .call .two) (unknown : BinaryFn.ofName? o.word.value = none) :
      Offends o (.unknownFunction .two o.word.value)
  | unknownVariable (value : o.role = .variable) (unnamed : constant? o.word.value = none)
      (unknown : o.word.value ∉ o.known) : Offends o (.unknownVariable o.word.value)

theorem Offends.name? {o : Occurrence} {cause : Cause} (h : o.Offends cause) :
    cause.name? = some o.word.value := by
  cases h <;> rfl

/-- What is reported for an occurrence that offends. -/
def cause? (o : Occurrence) : Option Cause :=
  match o.role with
  | .target =>
      if o.word.value ∈ o.known then some (.alreadyDefined o.word.value)
      else if (constant? o.word.value).isSome then some (.constantTarget o.word.value)
      else none
  | .call .one =>
      if UnaryFn.ofName? o.word.value = none then some (.unknownFunction .one o.word.value) else none
  | .call .two =>
      if BinaryFn.ofName? o.word.value = none then some (.unknownFunction .two o.word.value) else none
  | .variable =>
      if constant? o.word.value = none ∧ o.word.value ∉ o.known then
        some (.unknownVariable o.word.value)
      else none

def fault? (o : Occurrence) : Option (Placed Cause) :=
  o.cause?.map fun cause => ⟨cause, o.word.position⟩

theorem offends_of_cause? {o : Occurrence} {cause : Cause} (h : o.cause? = some cause) :
    o.Offends cause := by
  unfold cause? at h
  split at h
  · rename_i hrole
    split at h
    · rename_i hknown
      cases h
      exact .alreadyDefined hrole hknown
    · split at h
      · rename_i hconstant
        cases h
        exact .constantTarget hrole (Option.isSome_iff_ne_none.1 hconstant)
      · cases h
  · rename_i hrole
    split at h
    · rename_i hunknown
      cases h
      exact .unknownUnary hrole hunknown
    · cases h
  · rename_i hrole
    split at h
    · rename_i hunknown
      cases h
      exact .unknownBinary hrole hunknown
    · cases h
  · rename_i hrole
    split at h
    · rename_i hunknown
      cases h
      exact .unknownVariable hrole hunknown.1 hunknown.2
    · cases h

theorem Offends.cause?_ne_none {o : Occurrence} {cause : Cause} (h : o.Offends cause) :
    o.cause? ≠ none := by
  cases h with
  | alreadyDefined target known => simp [cause?, target, known]
  | constantTarget target constant =>
      have hsome := Option.isSome_iff_ne_none.2 constant
      by_cases hknown : o.word.value ∈ o.known <;> simp [cause?, target, hknown, hsome]
  | unknownUnary call unknown => simp [cause?, call, unknown]
  | unknownBinary call unknown => simp [cause?, call, unknown]
  | unknownVariable value unnamed unknown => simp [cause?, value, unnamed, unknown]

end Occurrence

/-! Compiling trees -/

namespace Function

section Trees

variable {scope : Scope} {known : List String}

theorem error?_ofName (hscope : ∀ name, scope.visible? name = none ↔ name ∉ known)
    (name : Placed String) :
    Outcome.error? (ofName scope name) = (Occurrence.mk .variable name known).fault? := by
  rw [Occurrence.fault?, Occurrence.cause?, ofName]
  cases hconstant : constant? name.value with
  | some value => simp [Outcome.error?]
  | none =>
      by_cases hknown : name.value ∈ known
      · have hvisible : scope.visible? name.value ≠ none := fun h => (hscope _).1 h hknown
        obtain ⟨index, hindex⟩ := Option.ne_none_iff_exists'.1 hvisible
        cases index <;> simp [Outcome.error?, hindex, hknown]
      · simp [Outcome.error?, (hscope _).2 hknown, hknown]

mutual

/-- Compiling a tree fails with the first occurrence in it that offends. -/
theorem error?_ofTree (hscope : ∀ name, scope.visible? name = none ↔ name ∉ known) {r : Rule}
    (tree : Tree r) :
    Outcome.error? (ofTree scope tree) = (tree.occurrences known).findSome? Occurrence.fault? := by
  match tree with
  | .chain first rest =>
      rw [ofTree, Tree.occurrences, List.findSome?_append, ← error?_ofTree hscope first,
        ← error?_ofTail hscope rest]
      refine Outcome.error?_bind fun f _ => ?_
      exact Outcome.error?_bind_ok _ _
  | .signed negated operand =>
      rw [ofTree, Tree.occurrences, ← error?_ofTree hscope operand]
      exact Outcome.error?_bind_ok _ _
  | .callOne name argument =>
      rw [ofTree, Tree.occurrences, List.findSome?_cons, ← error?_ofTree hscope argument]
      cases hfn : UnaryFn.ofName? name.value with
      | none => simp [Occurrence.fault?, Occurrence.cause?, hfn, Outcome.error?]
      | some fn =>
          simp only [Occurrence.fault?, Occurrence.cause?, hfn, reduceCtorEq, if_false,
            Option.map_none]
          exact Outcome.error?_bind_ok _ _
  | .callTwo name first second =>
      rw [ofTree, Tree.occurrences, List.findSome?_cons, List.findSome?_append,
        ← error?_ofTree hscope first, ← error?_ofTree hscope second]
      cases hfn : BinaryFn.ofName? name.value with
      | none => simp [Occurrence.fault?, Occurrence.cause?, hfn, Outcome.error?]
      | some fn =>
          simp only [Occurrence.fault?, Occurrence.cause?, hfn, reduceCtorEq, if_false,
            Option.map_none]
          refine Outcome.error?_bind fun f _ => ?_
          exact Outcome.error?_bind_ok _ _
  | .plain primary =>
      rw [ofTree, Tree.occurrences]
      exact error?_ofTree hscope primary
  | .group inner =>
      rw [ofTree, Tree.occurrences]
      exact error?_ofTree hscope inner
  | .variable name =>
      rw [ofTree, Tree.occurrences, error?_ofName hscope, List.findSome?_singleton]
  | .number literal =>
      rw [ofTree, Tree.occurrences]
      rfl

theorem error?_ofTail (hscope : ∀ name, scope.visible? name = none ↔ name ∉ known) {c : Chain}
    (tail : Tail c) :
    Outcome.error? (ofTail scope tail) = (tail.occurrences known).findSome? Occurrence.fault? := by
  match tail with
  | .done =>
      rw [ofTail, Tail.occurrences]
      rfl
  | .step op operand rest =>
      rw [ofTail, Tail.occurrences, List.findSome?_append, ← error?_ofTree hscope operand,
        ← error?_ofTail hscope rest]
      refine Outcome.error?_bind fun f _ => ?_
      exact Outcome.error?_bind_ok _ _

end

end Trees

end Function

/-! Scopes -/

namespace Scope

/-- The scope binds exactly the known names. -/
def Binds (s : Scope) (known : List String) : Prop :=
  ∀ name, s.isBound name = true ↔ name ∈ known

theorem isBound_define (s : Scope) (name other : String) :
    (s.define name).isBound other = true ↔ other = name ∨ s.isBound other = true := by
  rw [isBound, index?_define]
  by_cases h : other = name <;> simp [h, isBound]

theorem isBound_initial (name : String) : initial.isBound name = true ↔ name = parameterName := by
  rw [isBound, index?, initial, lookup_cons_eq_if]
  by_cases h : name = parameterName <;> simp [h]

theorem Binds.settle_define {s : Scope} {known : List String} (h : s.Binds known) (name : String) :
    (s.define name).settle.Binds (name :: known) := by
  intro other
  rw [List.mem_cons, ← h other]
  exact isBound_define s name other

theorem binds_initial : initial.Binds [parameterName] := by
  intro name
  rw [isBound_initial, List.mem_singleton]

/-- While its value is compiled, a new name is no more visible than before. -/
theorem Binds.visible?_define {s : Scope} {known : List String} (h : s.Binds known) {name : String}
    (hname : name ∉ known) (other : String) :
    (s.define name).visible? other = none ↔ other ∉ known := by
  rw [Scope.visible?_define, ← h other, isBound]
  by_cases hother : other = name
  · subst hother
    have hunbound : s.index? other = none := by
      rw [← h other, isBound] at hname
      simpa using hname
    simp [hunbound]
  · simp [hother]

/-- The scopes that arise when names are defined and hidden. -/
inductive Reachable : Scope → Prop
  | initial : Reachable .initial
  | define {s : Scope} (before : Reachable s) (name : String) : Reachable (s.define name)
  | settle {s : Scope} (before : Reachable s) : Reachable s.settle

theorem mem_filterMap_bind (name other : String) (index : Nat)
    (entries : List (String × Option Nat)) :
    other ∈ ((bind name (some index) entries).filterMap fun (name, index) =>
        index.map fun _ => name) ↔
      other = name ∨ other ∈ (entries.filterMap fun (name, index) => index.map fun _ => name) := by
  induction entries with
  | nil => simp [bind]
  | cons entry rest ih =>
      obtain ⟨key, value⟩ := entry
      by_cases hkey : key = name
      · subst hkey
        cases value <;> simp [bind]
      · cases value with
        | none =>
            simp only [bind, hkey, if_false, List.filterMap_cons, Option.map_none]
            exact ih
        | some i =>
            simp only [bind, hkey, if_false, List.filterMap_cons, Option.map_some, List.mem_cons, ih]
            tauto

theorem mem_names_define (s : Scope) (name other : String) :
    other ∈ (s.define name).names ↔ other = name ∨ other ∈ s.names :=
  mem_filterMap_bind name other s.count s.entries

/-- The parameter is bound, and the names that were defined. -/
theorem Reachable.isBound_iff {s : Scope} (h : s.Reachable) (name : String) :
    s.isBound name = true ↔ name = parameterName ∨ name ∈ s.names := by
  induction h with
  | initial =>
      rw [isBound_initial]
      simp [names, Scope.initial]
  | define _ defined ih =>
      rw [isBound_define, mem_names_define, ih]
      tauto
  | settle _ ih => exact ih

/-- The names that an expression may mention: the parameter and the names of the scope, but for the
one that is hidden. -/
def known (s : Scope) : List String :=
  (parameterName :: s.names).filter fun name => s.hidden ≠ some name

theorem Reachable.visible?_eq_none_iff {s : Scope} (h : s.Reachable) (name : String) :
    s.visible? name = none ↔ name ∉ s.known := by
  rw [known, List.mem_filter, List.mem_cons, ← h.isBound_iff, decide_eq_true_eq, visible?, isVisible,
    isBound]
  cases s.index? name <;> simp

/-- What an expression may mention in a scope is a list of names, whatever the scope. -/
theorem exists_known (scope : Scope) :
    ∃ known : List String, ∀ name, scope.visible? name = none ↔ name ∉ known := by
  refine ⟨(scope.entries.map Prod.fst).filter fun name => (scope.visible? name).isSome, ?_⟩
  intro name
  rw [List.mem_filter, not_and_or, Bool.not_eq_true, Option.isSome_eq_false_iff,
    Option.isNone_iff_eq_none]
  refine ⟨.inr, fun h => h.elim (fun hunbound => ?_) id⟩
  have hlookup : scope.index? name = none := by
    rw [index?, List.lookup_eq_none_iff]
    intro entry hentry
    have hne : name ≠ entry.1 := fun heq => hunbound (heq ▸ List.mem_map_of_mem hentry)
    simpa using hne
  rw [visible?, hlookup, ite_self]

end Scope

/-! Compiling assignments -/

namespace Function

variable {scope : Scope} {known : List String}

theorem error?_ofAssignment (hscope : scope.Binds known) (a : Assignment) :
    Outcome.error? (ofAssignment scope a) =
      (a.occurrences known).findSome? Occurrence.fault? := by
  rw [ofAssignment, Assignment.occurrences, List.findSome?_cons, Occurrence.fault?,
    Occurrence.cause?]
  by_cases hknown : a.target.value ∈ known
  · simp [(hscope _).2 hknown, hknown, Outcome.error?]
  · rw [if_neg (mt (hscope _).1 hknown)]
    by_cases hconstant : (constant? a.target.value).isSome = true
    · simp [hknown, hconstant, Outcome.error?]
    · rw [if_neg hconstant, ← error?_ofTree (hscope.visible?_define hknown)]
      simp only [hknown, if_false, hconstant]
      exact Outcome.error?_bind_ok _ _

/-- The scope after an assignment binds its target too. -/
theorem scope_of_ofAssignment {next : Scope} {a : Assignment} {f : Function}
    (h : ofAssignment scope a = .ok (f, next)) : next = (scope.define a.target.value).settle := by
  unfold ofAssignment at h
  split at h
  · cases h
  · split at h
    · cases h
    · obtain ⟨_, _, h⟩ := Outcome.bind_eq_ok_iff.1 h
      cases h
      rfl

/-- Compiling assignments fails with the first occurrence in them that offends. -/
theorem error?_ofAssignments (hscope : scope.Binds known) (as : List Assignment) :
    Outcome.error? (ofAssignments scope as) =
      (Occurrence.ofAssignments known as).findSome? Occurrence.fault? := by
  induction as generalizing scope known with
  | nil => rfl
  | cons a as ih =>
      rw [ofAssignments, Occurrence.ofAssignments, List.findSome?_append,
        ← error?_ofAssignment hscope a]
      refine Outcome.error?_bind ?_
      rintro ⟨f, next⟩ ha
      obtain rfl := scope_of_ofAssignment ha
      rw [← ih (hscope.settle_define a.target.value)]
      exact Outcome.error?_bind_ok _ _

end Function

/-- What is wrong with occurrences is wrong at an identifier of theirs. -/
theorem Occurrence.exists_identifier_of_fault {occurrences : List Occurrence} {ts : List Token}
    (hwords : identifiers ts = occurrences.map Occurrence.word) {fault : Placed Cause}
    (h : occurrences.findSome? Occurrence.fault? = some fault) :
    ∃ tok ∈ ts, tok.kind = .ident ∧ tok.position = fault.position := by
  obtain ⟨o, ho, hfault⟩ := List.exists_of_findSome?_eq_some h
  have hword : o.word ∈ identifiers ts := hwords ▸ List.mem_map_of_mem ho
  obtain ⟨tok, htok, hident, hplaced⟩ := mem_identifiers hword
  refine ⟨tok, htok, hident, ?_⟩
  obtain ⟨cause, _, rfl⟩ := Option.map_eq_some_iff.1 hfault
  exact congrArg Placed.position hplaced

/-! Sources -/

/-- A source with these occurrences is rejected exactly if one of them offends. The error says what
is wrong with the first one in the text that does, names it, and is reported where it stands. -/
structure ReportsFirstOffence {α : Type} (source : String) (outcome : Except CompileError α)
    (occurrences : List Occurrence) : Prop where
  rejected_iff : (∃ e, outcome = .error e) ↔ ∃ o ∈ occurrences, ∃ cause, o.Offends cause
  first : ∀ e, outcome = .error e → ∃ o ∈ occurrences, ∃ cause, o.Offends cause ∧
    (∀ cause', o.Offends cause' → cause' = cause) ∧
    (∀ o' ∈ occurrences, (∃ cause', o'.Offends cause') →
      o' = o ∨ o.word.position.Before o'.word.position) ∧
    e = .inSource source ⟨cause, o.word.position⟩ ∧ cause.name? = some o.word.value

namespace Occurrence

variable {occurrences : List Occurrence}

theorem findSome?_fault?_ne_none_iff :
    occurrences.findSome? fault? ≠ none ↔ ∃ o ∈ occurrences, ∃ cause, o.Offends cause := by
  rw [ne_eq, List.findSome?_eq_none_iff, not_forall]
  constructor
  · rintro ⟨o, ho⟩
    obtain ⟨hmem, hfault⟩ := Classical.not_imp.1 ho
    rw [fault?, Option.map_eq_none_iff] at hfault
    obtain ⟨cause, hcause⟩ := Option.ne_none_iff_exists'.1 hfault
    exact ⟨o, hmem, cause, offends_of_cause? hcause⟩
  · rintro ⟨o, hmem, cause, hoffends⟩
    refine ⟨o, Classical.not_imp.2 ⟨hmem, ?_⟩⟩
    rw [fault?, Option.map_eq_none_iff]
    exact hoffends.cause?_ne_none

/-- What is wrong with an occurrence is one thing, unless a target that is known is a constant. -/
theorem Offends.unique {o : Occurrence} {cause cause' : Cause} (h : o.Offends cause)
    (h' : o.Offends cause')
    (hconstant : o.role = .target → o.word.value ∈ o.known → constant? o.word.value = none) :
    cause' = cause := by
  cases h <;> cases h' <;> simp_all

/-- The first fault that is found is the first one in the text. -/
theorem reportsFirstOffence {α : Type} {source : String} {outcome : Except CompileError α}
    (herror : Outcome.error? outcome = (occurrences.findSome? fault?).map (.inSource source))
    (hordered : occurrences.Pairwise fun o o' => o.word.position.Before o'.word.position)
    (hearlier : ∀ before o after, occurrences = before ++ o :: after → o.role = .target →
      o.word.value ∈ o.known → constant? o.word.value ≠ none →
        ∃ o' ∈ before, ∃ cause, o'.Offends cause) :
    ReportsFirstOffence source outcome occurrences where
  rejected_iff := by
    rw [← findSome?_fault?_ne_none_iff, Option.ne_none_iff_exists']
    constructor
    · rintro ⟨e, he⟩
      rw [Outcome.error?_eq_some_iff.2 he] at herror
      obtain ⟨fault, hfault, _⟩ := Option.map_eq_some_iff.1 herror.symm
      exact ⟨fault, hfault⟩
    · rintro ⟨fault, hfault⟩
      rw [hfault] at herror
      exact ⟨_, Outcome.error?_eq_some_iff.1 herror⟩
  first := by
    intro e he
    rw [Outcome.error?_eq_some_iff.2 he] at herror
    obtain ⟨fault, hfault, rfl⟩ := Option.map_eq_some_iff.1 herror.symm
    obtain ⟨before, o, after, hsplit, hfirst, hnone⟩ := List.findSome?_eq_some_iff.1 hfault
    obtain ⟨cause, hcause, rfl⟩ := Option.map_eq_some_iff.1 hfirst
    have hoffends := offends_of_cause? hcause
    have hbefore : ∀ o' ∈ before, ∀ cause', ¬o'.Offends cause' := by
      intro o' ho' cause' hoffends'
      have hfault' := hnone o' ho'
      rw [fault?, Option.map_eq_none_iff] at hfault'
      exact hoffends'.cause?_ne_none hfault'
    subst hsplit
    refine ⟨o, List.mem_append_right _ List.mem_cons_self, cause, hoffends, ?_, ?_, rfl,
      hoffends.name?⟩
    · intro cause' hoffends'
      refine hoffends.unique hoffends' fun htarget hknown => ?_
      by_contra hconstant
      obtain ⟨o', ho', cause'', hoffends''⟩ :=
        hearlier before o after rfl htarget hknown hconstant
      exact hbefore o' ho' cause'' hoffends''
    · rintro o' ho' ⟨cause', hoffends'⟩
      rcases List.mem_append.1 ho' with ho' | ho'
      · exact absurd hoffends' (hbefore o' ho' cause')
      · rcases List.mem_cons.1 ho' with rfl | ho'
        · exact .inl rfl
        · exact .inr ((List.pairwise_cons.1 (List.pairwise_append.1 hordered).2.1).1 o' ho')

/-- A target that is known and a constant was a target before. -/
theorem target_of_known_constant {as : List Assignment} {before after : List Occurrence}
    {o : Occurrence} (h : ofClause as = before ++ o :: after) (hknown : o.word.value ∈ o.known)
    (hconstant : constant? o.word.value ≠ none) : ∃ o' ∈ before, ∃ cause, o'.Offends cause := by
  rcases target_of_known h hknown with hparameter | ⟨o', ho', htarget, hword⟩
  · rw [List.mem_singleton.1 hparameter] at hconstant
    exact absurd constant?_parameterName hconstant
  · exact ⟨o', ho', _, .constantTarget htarget (hword ▸ hconstant)⟩

end Occurrence

/-- The words of the occurrences are the identifiers among some tokens of a source. -/
def Scanned.States (s : Scanned) (occurrences : List Occurrence) : Prop :=
  ∃ ts, ts.Sublist s.tokens ∧ identifiers ts = occurrences.map Occurrence.word

namespace Scanned.States

variable {s : Scanned} {occurrences : List Occurrence}

theorem exists_token (h : s.States occurrences) {o : Occurrence} (ho : o ∈ occurrences) :
    ∃ tok ∈ s.tokens, tok.kind = .ident ∧ tok.placed = o.word := by
  obtain ⟨ts, hts, hwords⟩ := h
  have hword : o.word ∈ identifiers ts := hwords ▸ List.mem_map_of_mem ho
  obtain ⟨tok, htok, htoken⟩ := mem_identifiers hword
  exact ⟨tok, hts.mem htok, htoken⟩

theorem pairwise (h : s.States occurrences) {source : String} (hs : scan source = .ok s) :
    occurrences.Pairwise fun o o' => o.word.position.Before o'.word.position := by
  obtain ⟨ts, hts, hwords⟩ := h
  have hordered := pairwise_identifiers hs hts
  rwa [hwords, List.pairwise_map] at hordered

end Scanned.States

/-- The occurrences in the assignments of a clause are its identifiers, but for a `where` that is
dropped. -/
theorem identifiers_of_parseAssignments {source : String} {s : Scanned} (h : scan source = .ok s)
    {as : List Assignment} (has : parseAssignments source = .ok as) :
    identifiers (Reader.dropWhere (clauseTokens s.tokens)) =
      (Occurrence.ofClause as).map Occurrence.word := by
  obtain ⟨all, hall, hfits⟩ := (parseAssignments_eq_ok_iff h).1 has
  exact (isClause_iff.1 hall).identifiers hfits [parameterName]

theorem states_of_parseAssignments {source : String} {s : Scanned} (h : scan source = .ok s)
    {as : List Assignment} (has : parseAssignments source = .ok as) :
    s.States (Occurrence.ofClause as) :=
  ⟨_, (Reader.dropWhere_suffix _).sublist.trans (clauseTokens_sublist s.tokens),
    identifiers_of_parseAssignments h has⟩

/-- The occurrences in an expression are identifiers behind the header. -/
theorem states_of_parseExpr {source : String} {s : Scanned} (h : scan source = .ok s)
    {axis : Option String} {e : Expr} (he : parseExpr source axis = .ok e) (known : List String) :
    s.States (e.occurrences known) := by
  obtain ⟨body, hbody, hfit⟩ := (parseExpr_eq_ok_iff h).1 he
  obtain ⟨header, hheader, _⟩ := hbody.header
  have hsub : body.Sublist (withoutNewlines s.tokens) :=
    hheader ▸ List.sublist_append_right header body
  exact ⟨body, hsub.trans List.filter_sublist, e.identifiers_of_fit known hfit⟩

theorem compileAssignments_reportsFirstOffence {source : String} {as : List Assignment}
    (has : parseAssignments source = .ok as) :
    ReportsFirstOffence source (compileAssignments source) (Occurrence.ofClause as) := by
  obtain ⟨s, hs⟩ := exists_scan_of_read has
  refine Occurrence.reportsFirstOffence ?_ ?_ ?_
  · rw [compileAssignments, has]
    change Outcome.error? ((Function.ofAssignments .initial as).mapError _) = _
    rw [Outcome.error?_mapError, Function.error?_ofAssignments Scope.binds_initial]
    rfl
  · exact (states_of_parseAssignments hs has).pairwise hs
  · intro before o after hsplit _ hknown hconstant
    exact Occurrence.target_of_known_constant hsplit hknown hconstant

theorem compileExpr_reportsFirstOffence {source : String} {axis : Option String} {e : Expr}
    (he : parseExpr source axis = .ok e) {scope : Scope} (hscope : scope.Reachable) :
    ReportsFirstOffence source (compileExpr source scope axis) (e.occurrences scope.known) := by
  obtain ⟨s, hs⟩ := exists_scan_of_read he
  refine Occurrence.reportsFirstOffence ?_ ?_ ?_
  · rw [compileExpr, he]
    change Outcome.error? ((Function.ofTree scope e).mapError _) = _
    rw [Outcome.error?_mapError, Function.error?_ofTree hscope.visible?_eq_none_iff]
  · exact (states_of_parseExpr hs he scope.known).pairwise hs
  · intro before o after hsplit htarget
    have hmem : o ∈ e.occurrences scope.known := hsplit ▸ List.mem_append_right _ List.mem_cons_self
    exact absurd htarget (e.known_of_mem hmem).2

/-- The errors of parsing are syntax errors. -/
theorem malformed_of_read {source : String} {α : Type} {read : Scanned → Except Stuck α}
    {e : CompileError} (h : (do
      let s ← scanSource source
      (read s).mapError fun stuck => CompileError.inSource source (Stuck.fault s stuck)) = .error e) :
    ∃ detail, e.cause = .malformed detail := by
  rcases Outcome.bind_eq_error_iff.1 h with hscan | ⟨s, _, hread⟩
  · obtain ⟨c, _, rfl⟩ := Outcome.mapError_eq_error_iff.1 hscan
    exact ⟨_, rfl⟩
  · obtain ⟨stuck, _, rfl⟩ := Outcome.mapError_eq_error_iff.1 hread
    exact ⟨_, rfl⟩

/-- A clause or a curve expression that is well-formed is rejected exactly if a name in it offends,
and with the first name in the text that does. Targets become known from one assignment to the
next; a curve expression knows the names of its scope. All identifiers are considered, but for the
word before the assignments and the header before the expression. A source that is not well-formed
is rejected with a syntax error only. -/
theorem compile_reports_first_offence :
    (∀ clause as, parseAssignments clause = .ok as →
      ReportsFirstOffence clause (compileAssignments clause) (Occurrence.ofClause as) ∧
      ∃ s, scan clause = .ok s ∧ identifiers (Reader.dropWhere (clauseTokens s.tokens)) =
        (Occurrence.ofClause as).map Occurrence.word) ∧
    (∀ source axis tree scope, parseExpr source axis = .ok tree → Scope.Reachable scope →
      ReportsFirstOffence source (compileExpr source scope axis) (tree.occurrences scope.known) ∧
      ∃ s body, scan source = .ok s ∧ IsCurveExpr axis (withoutNewlines s.tokens) body ∧
        identifiers body = (tree.occurrences scope.known).map Occurrence.word) ∧
    (∀ clause e, parseAssignments clause = .error e →
      compileAssignments clause = .error e ∧ ∃ detail, e.cause = .malformed detail) ∧
    ∀ source axis scope e, parseExpr source axis = .error e →
      compileExpr source scope axis = .error e ∧ ∃ detail, e.cause = .malformed detail := by
  refine ⟨?_, ?_, ?_, ?_⟩
  · intro clause as has
    obtain ⟨s, hs⟩ := exists_scan_of_read has
    exact ⟨compileAssignments_reportsFirstOffence has, s, hs,
      identifiers_of_parseAssignments hs has⟩
  · intro source axis tree scope htree hscope
    obtain ⟨s, hs⟩ := exists_scan_of_read htree
    obtain ⟨body, hbody, hfit⟩ := (parseExpr_eq_ok_iff hs).1 htree
    exact ⟨compileExpr_reportsFirstOffence htree hscope, s, body, hs, hbody,
      tree.identifiers_of_fit scope.known hfit⟩
  · intro clause e he
    refine ⟨?_, malformed_of_read he⟩
    rw [compileAssignments, he]
    rfl
  · intro source axis scope e he
    refine ⟨?_, malformed_of_read he⟩
    rw [compileExpr, he]
    rfl

theorem compile_reports_first_offence_self :
    (∃ as e, parseAssignments "u = t\nv = v + foo q" = .ok as ∧
      compileAssignments "u = t\nv = v + foo q" = .error e ∧
      ReportsFirstOffence "u = t\nv = v + foo q"
        (compileAssignments "u = t\nv = v + foo q") (Occurrence.ofClause as) ∧
      e.cause = .unknownVariable "v" ∧ e.place = ⟨2, 5, some "v = v + foo q"⟩) ∧
    (∃ tree e scope, parseExpr "x(t) = sin u * q v" (some "x") = .ok tree ∧
      compileExpr "x(t) = sin u * q v" scope (some "x") = .error e ∧
      ReportsFirstOffence "x(t) = sin u * q v"
        (compileExpr "x(t) = sin u * q v" scope (some "x")) (tree.occurrences scope.known) ∧
      e.cause = .unknownFunction .one "q" ∧ e.place = ⟨1, 16, some "x(t) = sin u * q v"⟩) ∧
    ∃ e, parseAssignments "u = foo q +" = .error e ∧ compileAssignments "u = foo q +" = .error e ∧
      ∃ detail, e.cause = .malformed detail := by
  refine ⟨?_, ?_, ?_⟩
  · have hparses : (parseAssignments "u = t\nv = v + foo q").isOk = true := by
      decide +kernel
    have herror : Outcome.error? (compileAssignments "u = t\nv = v + foo q") =
        some ⟨.unknownVariable "v", ⟨2, 5, some "v = v + foo q"⟩, none⟩ := by
      decide +kernel
    cases has : parseAssignments "u = t\nv = v + foo q" with
    | error e =>
        rw [has] at hparses
        cases hparses
    | ok as =>
        have hreports := (compile_reports_first_offence.1 _ as has).1
        exact ⟨as, _, rfl, Outcome.error?_eq_some_iff.1 herror, hreports, rfl, rfl⟩
  · have hparses : (parseExpr "x(t) = sin u * q v" (some "x")).isOk = true := by
      decide +kernel
    have herror : Outcome.error? (compileExpr "x(t) = sin u * q v"
        (Scope.initial.define "u").settle (some "x")) =
          some ⟨.unknownFunction .one "q", ⟨1, 16, some "x(t) = sin u * q v"⟩, none⟩ := by
      decide +kernel
    cases htree : parseExpr "x(t) = sin u * q v" (some "x") with
    | error e =>
        rw [htree] at hparses
        cases hparses
    | ok tree =>
        have hreports := (compile_reports_first_offence.2.1 _ _ tree _ htree
          (.settle (.define .initial "u"))).1
        exact ⟨tree, _, _, rfl, Outcome.error?_eq_some_iff.1 herror, hreports, rfl, rfl⟩
  · have hrejected : (parseAssignments "u = foo q +").isOk = false := by
      decide +kernel
    cases he : parseAssignments "u = foo q +" with
    | ok as =>
        rw [he] at hrejected
        cases hrejected
    | error e => exact ⟨e, rfl, compile_reports_first_offence.2.2.1 _ e he⟩

end FlightCurve

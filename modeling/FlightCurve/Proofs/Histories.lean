import Mathlib.Data.List.Induction
import FlightCurve.Proofs.Naming
import FlightCurve.Proofs.Session

/-!
Histories of a scope: names are defined and shown again, the scope is asked for names, and
expressions are compiled in it, in any order. As long as only names are defined that are not yet
bound, what the scope answers can be read off its history.

The induction is on the history. It rests on what the scope holds after it: the names that were
defined, each with its place among them, and as hidden the last of them, unless the scope was
settled since. Two definitions in a row show the first name again.
-/

namespace FlightCurve

namespace Scope

/-- What can be done with a scope. -/
inductive Operation
  | define (name : String)
  | settle
  | names
  | contains (name : String)
  | isBound (name : String)
  | indexOf (name : String)
  | compile (source : String) (axis : Option String)

/-- What is answered. There is no index for a name that was never bound. -/
inductive Answer
  | index (index : Nat)
  | done
  | names (names : List String)
  | holds (holds : Bool)
  | indexOf (index? : Option (Option Nat))
  | compiled (outcome : Except CompileError Function)

/-- Compiles a curve expression in the scope of a session, which it might change on the way. -/
def compiling (source : String) (axis : Option String) : Session.Step Function := do
  let tree ← ofExcept (parseExpr source axis)
  Session.ofTree source tree

/-- The answer to an operation, and the scope after it. -/
def perform (scope : Scope) : Operation → Answer × Scope
  | .define name => (.index scope.count, scope.define name)
  | .settle => (.done, scope.settle)
  | .names => (.names scope.names, scope)
  | .contains name => (.holds (scope.isVisible name), scope)
  | .isBound name => (.holds (scope.isBound name), scope)
  | .indexOf name => (.indexOf (scope.index? name), scope)
  | .compile source axis =>
      match (compiling source axis).run ⟨scope, []⟩ with
      | .ok f session => (.compiled (.ok f), session.scope)
      | .error e session => (.compiled (.error e), session.scope)

/-- The scope after a history. -/
def after (history : List Operation) : Scope :=
  history.foldl (fun scope operation => (scope.perform operation).2) .initial

/-- The answer to an operation that comes after a history. -/
def answer (history : List Operation) (operation : Operation) : Answer :=
  ((after history).perform operation).1

/-- A name is only defined when it is not bound. -/
inductive Disciplined : List Operation → Prop
  | start : Disciplined []
  | next {history : List Operation} {operation : Operation} (before : Disciplined history)
      (isNew : ∀ name, operation = .define name →
        answer history (.isBound name) = .holds false) :
      Disciplined (history ++ [operation])

/-- The names that were defined, in the order of their definitions. -/
def defined (history : List Operation) : List String :=
  history.filterMap fun
    | .define name => some name
    | _ => none

/-- The name was defined last, and the scope was not settled since. -/
def IsPending (history : List Operation) (name : String) : Prop :=
  ∃ before since, history = before ++ .define name :: since ∧ .settle ∉ since ∧ defined since = []

/-! One operation more -/

@[simp] theorem after_concat (history : List Operation) (operation : Operation) :
    after (history ++ [operation]) = ((after history).perform operation).2 := by
  rw [after, List.foldl_append]
  rfl

theorem after_append (history more : List Operation) : after (history ++ more) =
    more.foldl (fun scope operation => (scope.perform operation).2) (after history) :=
  List.foldl_append ..

/-- Compiling answers what the expression comes to, and leaves the scope as it was. -/
theorem perform_compile (scope : Scope) (source : String) (axis : Option String) :
    scope.perform (.compile source axis) = (.compiled (compileExpr source scope axis), scope) := by
  have hkeeps : Session.Keeps (compiling source axis) ⟨scope, []⟩ (compileExpr source scope axis) :=
    (Session.keeps_ofExcept _ _).bind fun tree => Session.keeps_ofTree source _ tree
  rw [perform, EStateM.run, hkeeps]
  cases compileExpr source scope axis <;> rfl

theorem defined_concat (history : List Operation) (operation : Operation) :
    defined (history ++ [operation]) = defined history ++ defined [operation] :=
  List.filterMap_append

/-- A name is pending after a definition of it, and as long as what comes then neither defines a
name nor settles the scope. -/
theorem isPending_concat (history : List Operation) (operation : Operation) (name : String) :
    IsPending (history ++ [operation]) name ↔ operation = .define name ∨
      operation ≠ .settle ∧ defined [operation] = [] ∧ IsPending history name := by
  constructor
  · rintro ⟨before, since, hhistory, hsettle, hdefined⟩
    rcases List.eq_nil_or_concat since with rfl | ⟨since, last, rfl⟩
    · exact .inl (List.singleton_inj.1 (List.append_inj_right' hhistory rfl))
    · rw [List.concat_eq_append] at hhistory hsettle hdefined
      rw [← List.cons_append, ← List.append_assoc] at hhistory
      obtain rfl := List.singleton_inj.1 (List.append_inj_right' hhistory rfl)
      rw [List.mem_append, List.mem_singleton, not_or] at hsettle
      rw [defined_concat, List.append_eq_nil_iff] at hdefined
      exact .inr ⟨Ne.symm hsettle.2, hdefined.2, before, since,
        List.append_inj_left' hhistory rfl, hsettle.1, hdefined.1⟩
  · rintro (rfl | ⟨hsettle, hnone, before, since, rfl, hsince, hdefined⟩)
    · exact ⟨history, [], rfl, by simp, rfl⟩
    · refine ⟨before, since ++ [operation], by simp, ?_, ?_⟩
      · rw [List.mem_append, List.mem_singleton, not_or]
        exact ⟨hsince, hsettle.symm⟩
      · rw [defined_concat, hdefined, hnone]
        rfl

/-! What a scope holds -/

/-- The scope holds the names that were defined, each with its place, and hides the pending one. -/
structure Records (scope : Scope) (history : List Operation) : Prop where
  entries : scope.entries = (ofNames (defined history)).entries
  count : scope.count = (defined history).length
  hidden : ∀ name, scope.hidden = some name ↔ IsPending history name
  distinct : (defined history).Nodup
  noParameter : parameterName ∉ defined history

section Records

variable {scope : Scope} {history : List Operation}

theorem Records.index?_eq (h : scope.Records history) (name : String) :
    scope.index? name = (ofNames (defined history)).index? name := by
  rw [index?, index?, h.entries]

theorem Records.isBound_iff (h : scope.Records history) (name : String) :
    scope.isBound name = true ↔ name = parameterName ∨ name ∈ defined history := by
  rw [isBound, h.index?_eq, Option.isSome_iff_ne_none, ne_eq,
    index?_ofNames_eq_none_iff h.distinct h.noParameter]
  tauto

theorem Records.isVisible_iff (h : scope.Records history) (name : String) :
    scope.isVisible name = true ↔ scope.isBound name = true ∧ ¬IsPending history name := by
  rw [isVisible, Bool.and_eq_true, decide_eq_true_eq, ne_eq, h.hidden]

theorem records_initial : initial.Records [] where
  entries := rfl
  count := rfl
  hidden := by
    intro name
    refine iff_of_false nofun ?_
    rintro ⟨before, since, hhistory, _⟩
    exact absurd hhistory (by simp)
  distinct := .nil
  noParameter := by simp [defined]

theorem Records.define (h : scope.Records history) {name : String}
    (hnew : scope.isBound name = false) :
    (scope.define name).Records (history ++ [.define name]) := by
  have hnew' : ¬(name = parameterName ∨ name ∈ defined history) := by
    rw [← h.isBound_iff, hnew]
    simp
  rw [not_or] at hnew'
  have hindex : (ofNames (defined history)).index? name = none :=
    (index?_ofNames_eq_none_iff h.distinct h.noParameter).2 hnew'
  have hsettled := settle_define_ofNames hindex
  have hdefined : defined (history ++ [.define name]) = defined history ++ [name] :=
    defined_concat history _
  refine ⟨?_, ?_, fun other => ?_, ?_, ?_⟩
  · rw [hdefined, ← hsettled]
    change bind name (some scope.count) scope.entries = bind name _ (ofNames _).entries
    rw [h.count, h.entries]
    rfl
  · rw [hdefined, List.length_append]
    exact congrArg (· + 1) h.count
  · simp [isPending_concat, Scope.define, defined]
  · rw [hdefined, List.nodup_append]
    refine ⟨h.distinct, List.pairwise_singleton _ _, ?_⟩
    rintro other hother _ hname rfl
    exact hnew'.2 (List.mem_singleton.1 hname ▸ hother)
  · rw [hdefined, List.mem_append, List.mem_singleton, not_or]
    exact ⟨h.noParameter, Ne.symm hnew'.1⟩

theorem Records.settle (h : scope.Records history) :
    scope.settle.Records (history ++ [.settle]) := by
  have hdefined : defined (history ++ [.settle]) = defined history := by
    rw [defined_concat]
    exact List.append_nil _
  refine ⟨hdefined ▸ h.entries, hdefined ▸ h.count, fun name => ?_, hdefined ▸ h.distinct,
    hdefined ▸ h.noParameter⟩
  simp [isPending_concat, Scope.settle]

/-- The other operations leave the scope as it was. -/
theorem Records.keep (h : scope.Records history) {operation : Operation}
    (hsettle : operation ≠ .settle) (hnone : defined [operation] = []) :
    scope.Records (history ++ [operation]) := by
  have hdefined : defined (history ++ [operation]) = defined history := by
    rw [defined_concat, hnone, List.append_nil]
  refine ⟨hdefined ▸ h.entries, hdefined ▸ h.count, fun name => ?_, hdefined ▸ h.distinct,
    hdefined ▸ h.noParameter⟩
  have hdefine : operation ≠ .define name := by
    rintro rfl
    cases hnone
  simp [isPending_concat, hdefine, hsettle, hnone, h.hidden]

end Records

/-- After a disciplined history a scope holds what was defined. -/
theorem Disciplined.records {history : List Operation} (h : Disciplined history) :
    (after history).Records history := by
  induction h with
  | start => exact records_initial
  | @next history operation before isNew ih =>
      rw [after_concat]
      cases operation with
      | define name => exact ih.define (Answer.holds.inj (isNew name rfl))
      | settle => exact ih.settle
      | names => exact ih.keep (by simp) rfl
      | contains name => exact ih.keep (by simp) rfl
      | isBound name => exact ih.keep (by simp) rfl
      | indexOf name => exact ih.keep (by simp) rfl
      | compile source axis =>
          rw [perform_compile]
          exact ih.keep (by simp) rfl

/-- A name that is bound stays bound, whatever is done with the scope. -/
theorem isBound_perform {scope : Scope} {name : String} (h : scope.isBound name = true)
    (operation : Operation) : (scope.perform operation).2.isBound name = true := by
  cases operation with
  | define other =>
      rw [isBound] at h ⊢
      change ((scope.define other).index? name).isSome = true
      rw [index?_define]
      split
      · rfl
      · exact h
  | compile source axis => rwa [perform_compile]
  | _ => exact h

theorem isBound_after_append {history : List Operation} {name : String}
    (h : (after history).isBound name = true) (more : List Operation) :
    (after (history ++ more)).isBound name = true := by
  induction more using List.reverseRecOn with
  | nil => rwa [List.append_nil]
  | append_singleton more operation ih =>
      rw [← List.append_assoc, after_concat]
      exact isBound_perform ih operation

/-! Answers -/

/-- What a scope answers after a history. -/
structure Consistent (history : List Operation) : Prop where
  /-- A definition answers how many there were before it, -/
  define : ∀ name, answer history (.define name) = .index (defined history).length
  /-- the names are those that were defined, in their order, -/
  names : answer history .names = .names (defined history)
  /-- and the index of a name is its place among them. -/
  indexOf : ∀ i name, (defined history)[i]? = some name →
    answer history (.indexOf name) = .indexOf (some (some i))
  /-- The parameter is known and has no index. -/
  parameter : answer history (.indexOf "t") = .indexOf (some none)
  /-- What is not bound is not known. -/
  unbound : ∀ name, answer history (.isBound name) = .holds false →
    answer history (.indexOf name) = .indexOf none
  /-- Bound are the parameter and the names that were defined, -/
  isBound : ∀ name, answer history (.isBound name) = .holds true ↔
    name = "t" ∨ name ∈ defined history
  /-- and they stay bound. -/
  staysBound : ∀ more name, answer history (.isBound name) = .holds true →
    answer (history ++ more) (.isBound name) = .holds true
  /-- The scope contains what is bound and not pending. -/
  contains : ∀ name, answer history (.contains name) = .holds true ↔
    answer history (.isBound name) = .holds true ∧ ¬IsPending history name
  /-- An expression is compiled or rejected as on its own, -/
  compile : ∀ source axis, answer history (.compile source axis) =
    .compiled (compileExpr source (after history) axis)
  /-- and no later answer depends on that. -/
  untouched : ∀ source axis more operation,
    answer (history ++ .compile source axis :: more) operation = answer (history ++ more) operation

/-- A scope in which only names are defined that are not bound keeps its names apart, whatever else
is done with it and in whatever order. -/
theorem consistent_of_disciplined {history : List Operation} (h : Disciplined history) :
    Consistent history where
  define := fun name => congrArg Answer.index h.records.count
  names := by
    have hnames : (after history).names = defined history := by
      rw [Scope.names, h.records.entries]
      exact names_ofNames (defined history)
    exact congrArg Answer.names hnames
  indexOf := by
    intro i name hname
    have hindex := index?_ofNames h.records.distinct h.records.noParameter hname
    exact congrArg Answer.indexOf ((h.records.index?_eq name).trans hindex)
  parameter := congrArg Answer.indexOf
    ((h.records.index?_eq parameterName).trans (index?_ofNames_parameter _))
  unbound := by
    intro name hnone
    have hindex : ((after history).index? name).isSome = false := Answer.holds.inj hnone
    exact congrArg Answer.indexOf
      (Option.isNone_iff_eq_none.1 (Option.isSome_eq_false_iff.1 hindex))
  isBound := fun name =>
    ⟨fun hbound => (h.records.isBound_iff name).1 (Answer.holds.inj hbound),
      fun hname => congrArg Answer.holds ((h.records.isBound_iff name).2 hname)⟩
  staysBound := fun more name hbound =>
    congrArg Answer.holds (isBound_after_append (Answer.holds.inj hbound) more)
  contains := by
    intro name
    have hvisible := h.records.isVisible_iff name
    constructor
    · intro hcontains
      obtain ⟨hbound, hpending⟩ := hvisible.1 (Answer.holds.inj hcontains)
      exact ⟨congrArg Answer.holds hbound, hpending⟩
    · rintro ⟨hbound, hpending⟩
      exact congrArg Answer.holds (hvisible.2 ⟨Answer.holds.inj hbound, hpending⟩)
  compile := fun source axis => congrArg Prod.fst (perform_compile (after history) source axis)
  untouched := by
    intro source axis more operation
    have hafter : after (history ++ .compile source axis :: more) = after (history ++ more) := by
      rw [after_append, after_append, List.foldl_cons, perform_compile]
    rw [answer, answer, hafter]

/-- Two definitions in a row, and an expression that is rejected. -/
theorem consistent_of_disciplined_rejected :
    Disciplined [.define "u", .define "v", .compile "u + v" none, .settle] ∧
      (∃ e, answer [.define "u", .define "v"] (.compile "u + v" none) = .compiled (.error e)) ∧
      Consistent [.define "u", .define "v", .compile "u + v" none, .settle] := by
  have hdisciplined :
      Disciplined [.define "u", .define "v", .compile "u + v" none, .settle] := by
    have hu : Disciplined [.define "u"] := .next .start fun name hname => by
      obtain rfl := Operation.define.inj hname
      rfl
    have hv : Disciplined [.define "u", .define "v"] := hu.next fun name hname => by
      obtain rfl := Operation.define.inj hname
      rfl
    exact (hv.next fun _ hname => by cases hname).next fun _ hname => by cases hname
  have hrejected :
      (compileExpr "u + v" (after [.define "u", .define "v"]) none).isOk = false := by
    decide +kernel
  refine ⟨hdisciplined, ?_, consistent_of_disciplined hdisciplined⟩
  rw [answer, perform_compile]
  cases h : compileExpr "u + v" (after [.define "u", .define "v"]) none with
  | error e => exact ⟨e, rfl⟩
  | ok f =>
      rw [h] at hrejected
      cases hrejected

end Scope

end FlightCurve

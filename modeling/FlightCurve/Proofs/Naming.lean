import FlightCurve.Proofs.Offences
import FlightCurve.Proofs.Writing

/-!
The names of a where clause. The scope after a where clause has the targets of its assignments as
names, in the order of the text, and the index of a name is its place among them; so a name and its
index say the same.
-/

namespace FlightCurve

/-- Names that assignments can have one after the other. -/
structure IsNaming (names : List String) : Prop where
  distinct : names.Nodup
  noParameter : parameterName ∉ names
  noConstant : ∀ name ∈ names, constant? name = none

theorem isNaming_nil : IsNaming [] := ⟨.nil, by simp, by simp⟩

theorem IsNaming.concat {names : List String} {name : String} (h : IsNaming names)
    (hnew : name ∉ names) (hparameter : name ≠ parameterName) (hconstant : constant? name = none) :
    IsNaming (names ++ [name]) where
  distinct := by
    rw [List.nodup_append]
    refine ⟨h.distinct, List.pairwise_singleton _ name, ?_⟩
    rintro other hother _ hname rfl
    exact hnew (List.mem_singleton.1 hname ▸ hother)
  noParameter := by
    rw [List.mem_append, List.mem_singleton, not_or]
    exact ⟨h.noParameter, hparameter.symm⟩
  noConstant := by
    rw [List.forall_mem_append, List.forall_mem_singleton]
    exact ⟨h.noConstant, hconstant⟩

namespace Scope

/-! Scopes of names -/

/-- The names with their places, the first of which is `n`. -/
def numbered (n : Nat) (names : List String) : List (String × Option Nat) :=
  (names.zipIdx n).map fun (name, index) => (name, some index)

/-- The scope in which these names are bound, each to its place among them. -/
def ofNames (names : List String) : Scope :=
  ⟨(parameterName, none) :: numbered 0 names, none, names.length⟩

theorem numbered_cons (n : Nat) (name : String) (names : List String) :
    numbered n (name :: names) = (name, some n) :: numbered (n + 1) names := rfl

theorem numbered_append (n : Nat) (names names' : List String) :
    numbered n (names ++ names') = numbered n names ++ numbered (n + names.length) names' := by
  rw [numbered, List.zipIdx_append, List.map_append]
  rfl

theorem lookup_numbered {names : List String} (hdistinct : names.Nodup) {name : String} {i : Nat}
    (hname : names[i]? = some name) (n : Nat) :
    (numbered n names).lookup name = some (some (n + i)) := by
  induction names generalizing n i with
  | nil => cases hname
  | cons other names ih =>
      rw [numbered_cons, lookup_cons_eq_if]
      rw [List.nodup_cons] at hdistinct
      cases i with
      | zero =>
          cases hname
          exact if_pos rfl
      | succ i =>
          have hne : name ≠ other := by
            rintro rfl
            exact hdistinct.1 (List.mem_of_getElem? hname)
          rw [if_neg hne, ih hdistinct.2 hname, Nat.add_assoc, Nat.add_comm 1]

theorem lookup_numbered_eq_none {names : List String} {name : String} (h : name ∉ names)
    (n : Nat) : (numbered n names).lookup name = none := by
  induction names generalizing n with
  | nil => rfl
  | cons other names ih =>
      rw [List.mem_cons, not_or] at h
      rw [numbered_cons, lookup_cons_eq_if, if_neg h.1, ih h.2]

@[simp] theorem names_ofNames (names : List String) : (ofNames names).names = names := by
  -- the parameter has no index, so it is left out
  have hnumbered : ∀ n, (Scope.mk (numbered n names) none 0).names = names := by
    induction names with
    | nil => exact fun _ => rfl
    | cons name names ih => exact fun n => congrArg (name :: ·) (ih (n + 1))
  exact hnumbered 0

theorem index?_ofNames_parameter (names : List String) :
    (ofNames names).index? parameterName = some none := by
  rw [index?, ofNames, lookup_cons_eq_if, if_pos rfl]

section Lookup

variable {names : List String} (hdistinct : names.Nodup) (hparameter : parameterName ∉ names)
  {name : String}

include hdistinct hparameter

theorem index?_ofNames {i : Nat} (hname : names[i]? = some name) :
    (ofNames names).index? name = some (some i) := by
  have hne : name ≠ parameterName := by
    rintro rfl
    exact hparameter (List.mem_of_getElem? hname)
  rw [index?, ofNames, lookup_cons_eq_if, if_neg hne, lookup_numbered hdistinct hname,
    Nat.zero_add]

theorem index?_ofNames_eq_none_iff :
    (ofNames names).index? name = none ↔ name ≠ parameterName ∧ name ∉ names := by
  constructor
  · intro hnone
    constructor
    · rintro rfl
      rw [index?_ofNames_parameter] at hnone
      cases hnone
    · intro hmem
      obtain ⟨i, hi⟩ := List.getElem?_of_mem hmem
      rw [index?_ofNames hdistinct hparameter hi] at hnone
      cases hnone
  · rintro ⟨hne, hnew⟩
    rw [index?, ofNames, lookup_cons_eq_if, if_neg hne, lookup_numbered_eq_none hnew]

end Lookup

/-- Nothing is hidden in the scope of names. -/
theorem visible?_ofNames (names : List String) (name : String) :
    (ofNames names).visible? name = (ofNames names).index? name :=
  visible?_of_hidden_eq_none rfl name

theorem bind_of_lookup_eq_none {entries : List (String × Option Nat)} {name : String}
    (h : entries.lookup name = none) (index : Option Nat) :
    bind name index entries = entries ++ [(name, index)] := by
  induction entries with
  | nil => rfl
  | cons entry entries ih =>
      obtain ⟨key, value⟩ := entry
      rw [lookup_cons_eq_if] at h
      by_cases hkey : name = key
      · rw [if_pos hkey] at h
        cases h
      · rw [if_neg hkey] at h
        rw [bind, if_neg (Ne.symm hkey), ih h, List.cons_append]

/-- A new name comes last. -/
theorem settle_define_ofNames {names : List String} {name : String}
    (h : (ofNames names).index? name = none) :
    ((ofNames names).define name).settle = ofNames (names ++ [name]) := by
  have hentries : bind name (some names.length) (ofNames names).entries =
      (ofNames (names ++ [name])).entries := by
    rw [bind_of_lookup_eq_none h, ofNames, ofNames, numbered_append, Nat.zero_add]
    rfl
  have hlength : names.length + 1 = (names ++ [name]).length := by
    rw [List.length_append, List.length_singleton]
  calc ((ofNames names).define name).settle
      = ⟨bind name (some names.length) (ofNames names).entries, none, names.length + 1⟩ := rfl
    _ = ofNames (names ++ [name]) := by rw [hentries, hlength]; rfl

end Scope

/-! Scopes of assignments -/

namespace Function

/-- An assignment is compiled only if its target is new. -/
theorem new_of_ofAssignment {scope next : Scope} {a : Assignment} {f : Function}
    (h : ofAssignment scope a = .ok (f, next)) :
    scope.index? a.target.value = none ∧ constant? a.target.value = none := by
  unfold ofAssignment at h
  split at h
  · cases h
  · rename_i hbound
    split at h
    · cases h
    · rename_i hconstant
      constructor
      · simpa [Scope.isBound] using hbound
      · simpa using hconstant

/-- The scope after assignments has their targets as further names, in order. -/
theorem scope_of_ofAssignments {names : List String} (hnames : IsNaming names)
    {as : List Assignment} {fs : List Function} {scope : Scope}
    (h : ofAssignments (.ofNames names) as = .ok (fs, scope)) :
    IsNaming (names ++ as.map (·.target.value)) ∧
      scope = .ofNames (names ++ as.map (·.target.value)) := by
  induction as generalizing names fs with
  | nil =>
      cases h
      rw [List.map_nil, List.append_nil]
      exact ⟨hnames, rfl⟩
  | cons a as ih =>
      simp only [ofAssignments] at h
      obtain ⟨⟨f, next⟩, hf, h⟩ := Outcome.bind_eq_ok_iff.1 h
      obtain ⟨⟨gs, last⟩, hgs, h⟩ := Outcome.bind_eq_ok_iff.1 h
      cases h
      obtain ⟨hindex, hconstant⟩ := new_of_ofAssignment hf
      obtain ⟨hparameter, hnew⟩ :=
        (Scope.index?_ofNames_eq_none_iff hnames.distinct hnames.noParameter).1 hindex
      obtain rfl := scope_of_ofAssignment hf
      rw [Scope.settle_define_ofNames hindex] at hgs
      have hrest := ih (hnames.concat hnew hparameter hconstant) hgs
      rwa [List.append_assoc] at hrest

end Function

/-! Sources -/

/-- The target of each assignment is one of the occurrences. -/
theorem Occurrence.exists_target_of_mem (known : List String) {as : List Assignment}
    {a : Assignment} (h : a ∈ as) :
    ∃ o ∈ ofAssignments known as, o.role = .target ∧ o.word = a.target := by
  induction as generalizing known with
  | nil => cases h
  | cons b as ih =>
      rcases List.mem_cons.1 h with rfl | h
      · exact ⟨_, List.mem_append_left _ List.mem_cons_self, rfl, rfl⟩
      · obtain ⟨o, ho, htarget⟩ := ih (b.target.value :: known) h
        exact ⟨o, List.mem_append_right _ ho, htarget⟩

theorem Scanned.States.isLexeme {source : String} {s : Scanned} (hs : scan source = .ok s)
    {occurrences : List Occurrence} (h : s.States occurrences) :
    ∀ o ∈ occurrences, IsLexeme (.ident, o.word.value) := by
  intro o ho
  obtain ⟨tok, htok, hident, hplaced⟩ := h.exists_token ho
  have hlexeme : tok.lexeme = (.ident, o.word.value) := by
    rw [← hplaced, Token.lexeme, hident]
    rfl
  exact hlexeme ▸ Token.isWritten_iff.1 (isWritten_of_scan hs tok htok)

theorem isLexeme_target {source : String} {as : List Assignment}
    (h : parseAssignments source = .ok as) :
    ∀ a ∈ as, IsLexeme (.ident, a.target.value) := by
  obtain ⟨s, hs⟩ := exists_scan_of_read h
  intro a ha
  obtain ⟨o, ho, _, hword⟩ := Occurrence.exists_target_of_mem [parameterName] ha
  exact hword ▸ (states_of_parseAssignments hs h).isLexeme hs o ho

/-- The names of a where clause are names that assignments can have, identifiers all of them, and
its scope is theirs. -/
theorem naming_of_compileAssignments {source : String} {fs : List Function} {scope : Scope}
    (h : compileAssignments source = .ok (fs, scope)) :
    IsNaming scope.names ∧ (∀ name ∈ scope.names, IsLexeme (.ident, name)) ∧
      scope = .ofNames scope.names := by
  obtain ⟨as, has, h⟩ := Outcome.bind_eq_ok_iff.1 h
  obtain ⟨hnaming, rfl⟩ :=
    Function.scope_of_ofAssignments isNaming_nil (Outcome.mapError_eq_ok_iff.1 h)
  rw [List.nil_append, Scope.names_ofNames] at *
  refine ⟨hnaming, ?_, rfl⟩
  rw [List.forall_mem_map]
  exact isLexeme_target has

end FlightCurve

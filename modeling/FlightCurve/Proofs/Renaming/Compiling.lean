import FlightCurve.Proofs.Renaming.Reading

/-!
Compiling renamed trees. A scope in which the names are renamed finds the same indices as long as no
two names become one, and constants stay constants; so the same functions are compiled, and what has
no meaning has none under its new name.
-/

namespace FlightCurve

/-- The cause under the new names. Functions keep theirs. -/
def Cause.renamed (name : String → String) : Cause → Cause
  | .unknownVariable n => .unknownVariable (name n)
  | .alreadyDefined n => .alreadyDefined (name n)
  | .constantTarget n => .constantTarget (name n)
  | cause => cause

namespace Renaming

def fault (R : Renaming) (fault : Placed Cause) : Placed Cause :=
  ⟨fault.value.renamed R.name, R.place fault.position⟩

/-- No two of the names become one, and constants alone become constants, each itself. -/
structure KeepsApart (R : Renaming) (names : List String) : Prop where
  injective : ∀ a ∈ names, ∀ b ∈ names, R.name a = R.name b → a = b
  constant : ∀ a ∈ names, constant? (R.name a) = constant? a

/-- The name of a call is left alone; targets and variables are renamed, and are among the names. -/
def Suits (R : Renaming) (names : List String) (o : Occurrence) : Prop :=
  match o.role with
  | .call _ => o.word ∉ R.words
  | _ => o.word ∈ R.words ∧ o.word.value ∈ names

theorem word_of_mem (R : Renaming) {w : Placed String} (h : w ∈ R.words) :
    R.word w = ⟨R.name w.value, R.place w.position⟩ := by
  rw [word, if_pos h]

theorem word_of_not_mem (R : Renaming) {w : Placed String} (h : w ∉ R.words) :
    R.word w = ⟨w.value, R.place w.position⟩ := by
  rw [word, if_neg h]

end Renaming

/-! Scopes -/

namespace Scope

/-- The scope with other names. -/
def renamed (name : String → String) (s : Scope) : Scope :=
  ⟨s.entries.map fun (n, index) => (name n, index), s.hidden.map name, s.count⟩

/-- The names that are bound or hidden are among these. -/
structure Within (s : Scope) (names : List String) : Prop where
  bound : ∀ entry ∈ s.entries, entry.1 ∈ names
  hidden : ∀ n ∈ s.hidden, n ∈ names

variable {name : String → String} {names : List String} {s : Scope} {n : String}

theorem lookup_renamed {entries : List (String × Option Nat)}
    (h : ∀ entry ∈ entries, name n = name entry.1 → n = entry.1) :
    (entries.map fun (n, index) => (name n, index)).lookup (name n) = entries.lookup n := by
  induction entries with
  | nil => rfl
  | cons entry entries ih =>
      rw [List.forall_mem_cons] at h
      rw [List.map_cons, lookup_cons_eq_if, lookup_cons_eq_if, ih h.2]
      by_cases hn : n = entry.1
      · rw [if_pos hn, if_pos (congrArg name hn)]
      · rw [if_neg hn, if_neg (mt h.1 hn)]

theorem bind_renamed {entries : List (String × Option Nat)} (index : Option Nat)
    (h : ∀ entry ∈ entries, name n = name entry.1 → n = entry.1) :
    bind (name n) index (entries.map fun (n, index) => (name n, index)) =
      (bind n index entries).map fun (n, index) => (name n, index) := by
  induction entries with
  | nil => rfl
  | cons entry entries ih =>
      rw [List.forall_mem_cons] at h
      rw [List.map_cons, bind, bind, ih h.2]
      by_cases hn : entry.1 = n
      · rw [if_pos hn, if_pos (congrArg name hn)]
        rfl
      · rw [if_neg hn, if_neg fun heq => hn (h.1 heq.symm).symm]
        rfl

theorem Within.define (h : s.Within names) (hn : n ∈ names) : (s.define n).Within names where
  bound := by
    have hbind : ∀ entries : List (String × Option Nat), (∀ entry ∈ entries, entry.1 ∈ names) →
        ∀ entry ∈ bind n (some s.count) entries, entry.1 ∈ names := by
      intro entries
      induction entries with
      | nil => exact fun _ => List.forall_mem_singleton.2 hn
      | cons entry entries ih =>
          intro hentries
          rw [List.forall_mem_cons] at hentries
          rw [bind]
          split
          · exact List.forall_mem_cons.2 ⟨hn, hentries.2⟩
          · exact List.forall_mem_cons.2 ⟨hentries.1, ih hentries.2⟩
    exact hbind s.entries h.bound
  hidden := by
    rintro _ ⟨⟩
    exact hn

theorem Within.settle (h : s.Within names) : s.settle.Within names :=
  ⟨h.bound, fun _ hn => by cases hn⟩

theorem names_renamed (name : String → String) (s : Scope) :
    (s.renamed name).names = s.names.map name := by
  rw [names, names, renamed, List.filterMap_map, List.map_filterMap]
  refine congrArg (List.filterMap · s.entries) (funext ?_)
  rintro ⟨n, index⟩
  cases index <;> rfl

section KeepsApart

variable {R : Renaming}

theorem index?_renamed (hs : s.Within names) (hR : R.KeepsApart names) (hn : n ∈ names) :
    (s.renamed R.name).index? (R.name n) = s.index? n :=
  lookup_renamed fun entry hentry => hR.injective n hn entry.1 (hs.bound entry hentry)

theorem isBound_renamed (hs : s.Within names) (hR : R.KeepsApart names) (hn : n ∈ names) :
    (s.renamed R.name).isBound (R.name n) = s.isBound n :=
  congrArg Option.isSome (index?_renamed hs hR hn)

theorem visible?_renamed (hs : s.Within names) (hR : R.KeepsApart names) (hn : n ∈ names) :
    (s.renamed R.name).visible? (R.name n) = s.visible? n := by
  have hhidden : (s.renamed R.name).hidden = some (R.name n) ↔ s.hidden = some n := by
    constructor
    · intro h
      obtain ⟨m, hm, heq⟩ := Option.map_eq_some_iff.1 h
      rw [hm, hR.injective m (hs.hidden m hm) n hn heq]
    · intro h
      exact congrArg (Option.map R.name) h
  rw [visible?, visible?, isVisible, isVisible, isBound_renamed hs hR hn, index?_renamed hs hR hn]
  simp only [ne_eq, hhidden]

theorem define_renamed (hs : s.Within names) (hR : R.KeepsApart names) (hn : n ∈ names) :
    (s.renamed R.name).define (R.name n) = (s.define n).renamed R.name := by
  have hapart : ∀ entry ∈ s.entries, R.name n = R.name entry.1 → n = entry.1 :=
    fun entry hentry => hR.injective n hn entry.1 (hs.bound entry hentry)
  have hbind := bind_renamed (some s.count) hapart
  rw [define, renamed, hbind]
  rfl

end KeepsApart

/-- The names of a scope after assignments are those before and the targets. -/
theorem Within.ofAssignments {last : Scope} (h : s.Within names) {as : List Assignment}
    (htargets : ∀ a ∈ as, a.target.value ∈ names) {fs : List Function}
    (has : Function.ofAssignments s as = .ok (fs, last)) : last.Within names := by
  induction as generalizing s fs with
  | nil =>
      cases has
      exact h
  | cons a as ih =>
      rw [List.forall_mem_cons] at htargets
      rw [Function.ofAssignments] at has
      obtain ⟨⟨f, next⟩, ha, has⟩ := Outcome.bind_eq_ok_iff.1 has
      obtain ⟨⟨gs, last'⟩, hgs, has⟩ := Outcome.bind_eq_ok_iff.1 has
      cases has
      obtain rfl := Function.scope_of_ofAssignment ha
      exact ih (h.define htargets.1).settle htargets.2 hgs

end Scope

/-! Functions -/

namespace Function

variable {R : Renaming} {names : List String} {scope : Scope} {known : List String}

theorem ofName_renamed (hscope : scope.Within names) (hR : R.KeepsApart names)
    {name : Placed String} (hword : name ∈ R.words) (hname : name.value ∈ names) :
    ofName (scope.renamed R.name) (R.word name) = (ofName scope name).mapError R.fault := by
  rw [R.word_of_mem hword, ofName, ofName]
  simp only
  rw [hR.constant _ hname, Scope.visible?_renamed hscope hR hname]
  cases constant? name.value with
  | some value => rfl
  | none =>
      cases scope.visible? name.value with
      | none => rfl
      | some index => cases index <;> rfl

mutual

theorem ofTree_renamed (hscope : scope.Within names) (hR : R.KeepsApart names) {r : Rule}
    (tree : Tree r) (hsuits : ∀ o ∈ tree.occurrences known, R.Suits names o) :
    ofTree (scope.renamed R.name) (tree.renamed R) = (ofTree scope tree).mapError R.fault := by
  match tree, hsuits with
  | .chain first rest, hsuits =>
      rw [Tree.occurrences, List.forall_mem_append] at hsuits
      rw [Tree.renamed, ofTree, ofTree, ofTree_renamed hscope hR first hsuits.1,
        ofTail_renamed hscope hR rest hsuits.2]
      cases ofTree scope first <;> cases ofTail scope rest <;> rfl
  | .signed negated operand, hsuits =>
      rw [Tree.renamed, ofTree, ofTree, ofTree_renamed hscope hR operand hsuits]
      cases ofTree scope operand <;> rfl
  | .callOne name argument, hsuits =>
      rw [Tree.occurrences, List.forall_mem_cons] at hsuits
      rw [Tree.renamed, R.word_of_not_mem hsuits.1, ofTree, ofTree,
        ofTree_renamed hscope hR argument hsuits.2]
      simp only
      cases UnaryFn.ofName? name.value with
      | none => rfl
      | some fn => cases ofTree scope argument <;> rfl
  | .callTwo name first second, hsuits =>
      rw [Tree.occurrences, List.forall_mem_cons, List.forall_mem_append] at hsuits
      rw [Tree.renamed, R.word_of_not_mem hsuits.1, ofTree, ofTree,
        ofTree_renamed hscope hR first hsuits.2.1, ofTree_renamed hscope hR second hsuits.2.2]
      simp only
      cases BinaryFn.ofName? name.value with
      | none => rfl
      | some fn => cases ofTree scope first <;> cases ofTree scope second <;> rfl
  | .plain primary, hsuits =>
      rw [Tree.renamed, ofTree, ofTree]
      exact ofTree_renamed hscope hR primary hsuits
  | .group inner, hsuits =>
      rw [Tree.renamed, ofTree, ofTree]
      exact ofTree_renamed hscope hR inner hsuits
  | .variable name, hsuits =>
      obtain ⟨hword, hname⟩ := List.forall_mem_singleton.1 hsuits
      rw [Tree.renamed, ofTree, ofTree]
      exact ofName_renamed hscope hR hword hname
  | .number literal, _ =>
      rw [Tree.renamed, ofTree, ofTree]
      rfl

theorem ofTail_renamed (hscope : scope.Within names) (hR : R.KeepsApart names) {c : Chain}
    (tail : Tail c) (hsuits : ∀ o ∈ tail.occurrences known, R.Suits names o) :
    ofTail (scope.renamed R.name) (tail.renamed R) = (ofTail scope tail).mapError R.fault := by
  match tail, hsuits with
  | .done, _ =>
      rw [Tail.renamed, ofTail, ofTail]
      rfl
  | .step op operand rest, hsuits =>
      rw [Tail.occurrences, List.forall_mem_append] at hsuits
      rw [Tail.renamed, ofTail, ofTail, ofTree_renamed hscope hR operand hsuits.1,
        ofTail_renamed hscope hR rest hsuits.2]
      cases ofTree scope operand <;> cases ofTail scope rest <;> rfl

end

theorem ofAssignment_renamed (hscope : scope.Within names) (hR : R.KeepsApart names)
    {a : Assignment} (hsuits : ∀ o ∈ a.occurrences known, R.Suits names o) :
    ofAssignment (scope.renamed R.name) (a.renamed R) =
      ((ofAssignment scope a).mapError R.fault).map fun r => (r.1, r.2.renamed R.name) := by
  rw [Assignment.occurrences, List.forall_mem_cons] at hsuits
  obtain ⟨⟨hword, hname⟩, hvalue⟩ := hsuits
  have htree := ofTree_renamed (hscope.define hname) hR a.value hvalue
  rw [← Scope.define_renamed hscope hR hname] at htree
  rw [ofAssignment, ofAssignment, Assignment.renamed, R.word_of_mem hword]
  simp only
  rw [Scope.isBound_renamed hscope hR hname, hR.constant _ hname, htree]
  split
  · rfl
  · split
    · rfl
    · rw [Scope.define_renamed hscope hR hname]
      cases ofTree (scope.define a.target.value) a.value <;> rfl

/-- Renamed assignments are compiled to the same functions, in the scope with the new names. -/
theorem ofAssignments_renamed (hscope : scope.Within names) (hR : R.KeepsApart names)
    {as : List Assignment} (hsuits : ∀ o ∈ Occurrence.ofAssignments known as, R.Suits names o) :
    ofAssignments (scope.renamed R.name) (as.map (·.renamed R)) =
      ((ofAssignments scope as).mapError R.fault).map fun r => (r.1, r.2.renamed R.name) := by
  induction as generalizing scope known with
  | nil => rfl
  | cons a as ih =>
      rw [Occurrence.ofAssignments, List.forall_mem_append] at hsuits
      have htarget : a.target.value ∈ names := (hsuits.1 _ List.mem_cons_self).2
      rw [List.map_cons, ofAssignments, ofAssignments, ofAssignment_renamed hscope hR hsuits.1]
      cases ha : ofAssignment scope a with
      | error fault => rfl
      | ok r =>
          obtain ⟨f, next⟩ := r
          obtain rfl := scope_of_ofAssignment ha
          have hrest := ih (hscope.define htarget).settle hsuits.2
          change (do
            let rest ← ofAssignments ((scope.define a.target.value).settle.renamed R.name)
              (as.map fun a : Assignment => a.renamed R)
            .ok (f :: rest.1, rest.2)) = _
          rw [hrest]
          change _ = ((do
            let rest ← ofAssignments (scope.define a.target.value).settle as
            .ok (f :: rest.1, rest.2)).mapError R.fault).map _
          cases ofAssignments (scope.define a.target.value).settle as <;> rfl

end Function

end FlightCurve

import FlightCurve.Vocabulary

/-!
Names in scope. The curve parameter is always bound; every other name is bound to the index of the
assignment that defines it. While the right side of an assignment is compiled its own name is bound
but hidden, so that an assignment sees only the names before it.
-/

namespace FlightCurve

/-- Bound names in the order in which they were first bound, each with its index; the parameter has
none. `hidden` is the name that was defined last, until the scope is settled. -/
structure Scope where
  entries : List (String × Option Nat)
  hidden : Option String
  count : Nat
  deriving DecidableEq, Repr

namespace Scope

/-- The scope in which only the curve parameter is bound. -/
def initial : Scope := ⟨[(parameterName, none)], none, 0⟩

/-- The index of a name, hidden or not: `some none` is the parameter, `none` an unbound name. -/
def index? (s : Scope) (name : String) : Option (Option Nat) := s.entries.lookup name

def isBound (s : Scope) (name : String) : Bool := (s.index? name).isSome

def isVisible (s : Scope) (name : String) : Bool := s.isBound name && s.hidden ≠ some name

/-- The index of a name that an expression may mention. -/
def visible? (s : Scope) (name : String) : Option (Option Nat) :=
  if s.isVisible name then s.index? name else none

/-- The names that have an index, in the order in which they were first bound. -/
def names (s : Scope) : List String :=
  s.entries.filterMap fun (name, index) => index.map fun _ => name

/-- Binds a name in its old place, or after all others. -/
def bind (name : String) (index : Option Nat) :
    List (String × Option Nat) → List (String × Option Nat)
  | [] => [(name, index)]
  | entry :: rest =>
      if entry.1 = name then (name, index) :: rest else entry :: bind name index rest

/-- Binds a name to the next index and hides it. -/
def define (s : Scope) (name : String) : Scope :=
  ⟨bind name (some s.count) s.entries, some name, s.count + 1⟩

/-- Ends the hiding of the name that was defined last. -/
def settle (s : Scope) : Scope := { s with hidden := none }

/-! Looking up after binding -/

theorem lookup_cons_eq_if (name key : String) (value : Option Nat)
    (entries : List (String × Option Nat)) :
    ((key, value) :: entries).lookup name =
      if name = key then some value else entries.lookup name := by
  by_cases h : name = key
  · subst h
    simp
  · have hb : (name == key) = false := by simpa using h
    simp [List.lookup_cons, hb, h]

theorem lookup_bind (name other : String) (index : Option Nat)
    (entries : List (String × Option Nat)) :
    (bind name index entries).lookup other =
      if other = name then some index else entries.lookup other := by
  induction entries with
  | nil => simp only [bind, lookup_cons_eq_if]
  | cons entry rest ih =>
      obtain ⟨key, value⟩ := entry
      by_cases hkey : key = name
      · subst hkey
        simp only [bind, if_true, lookup_cons_eq_if]
        split <;> rfl
      · simp only [bind, hkey, if_false, lookup_cons_eq_if, ih]
        by_cases h : other = key
        · subst h
          simp [hkey]
        · simp [h]

theorem index?_define (s : Scope) (name other : String) :
    (s.define name).index? other =
      if other = name then some (some s.count) else s.index? other :=
  lookup_bind name other _ _

theorem visible?_define (s : Scope) (name other : String) :
    (s.define name).visible? other = if other = name then none else s.index? other := by
  rw [visible?, isVisible, isBound, index?_define]
  by_cases h : other = name
  · simp [h, define]
  · have hne : name ≠ other := fun e => h e.symm
    cases s.index? other <;> simp [h, hne, define]

theorem visible?_of_hidden_eq_none {s : Scope} (h : s.hidden = none) (name : String) :
    s.visible? name = s.index? name := by
  rw [visible?, isVisible, isBound, h]
  cases s.index? name <;> simp

theorem visible?_settle (s : Scope) (name : String) : s.settle.visible? name = s.index? name :=
  visible?_of_hidden_eq_none rfl name

/-- Every index in the scope was given out. -/
def Bounded (s : Scope) : Prop := ∀ name index, s.index? name = some (some index) → index < s.count

theorem bounded_initial : initial.Bounded := by
  intro name index h
  rw [index?, initial, lookup_cons_eq_if] at h
  split at h
  · cases h
  · cases h

theorem Bounded.define {s : Scope} (h : s.Bounded) (name : String) : (s.define name).Bounded := by
  intro other index hi
  rw [index?_define] at hi
  split at hi
  · cases hi
    exact Nat.lt_succ_self _
  · exact Nat.lt_succ_of_lt (h other index hi)

theorem Bounded.settle {s : Scope} (h : s.Bounded) : s.settle.Bounded := h

/-- The name that was just defined is not seen, so a visible index is an older one. -/
theorem Bounded.visible_define {s : Scope} (h : s.Bounded) (name other : String) (index : Nat)
    (hv : (s.define name).visible? other = some (some index)) : index < s.count := by
  unfold visible? at hv
  split at hv
  · rename_i hvis
    have hne : other ≠ name := by
      intro e
      subst e
      simp [isVisible, Scope.define] at hvis
    rw [index?_define, if_neg hne] at hv
    exact h other index hv
  · cases hv

theorem Bounded.visible {s : Scope} (h : s.Bounded) (name : String) (index : Nat)
    (hv : s.visible? name = some (some index)) : index < s.count := by
  unfold visible? at hv
  split at hv
  · exact h name index hv
  · cases hv

end Scope

end FlightCurve

import FlightCurve.Compilation
import FlightCurve.Function.Evaluation

/-!
Well-scoped functions: references that are below a bound, and chains that are well formed. Whatever
is compiled is well scoped. The bound is never tested: it holds because a scope gives out its
indices in turn, and because the name that is being defined is hidden from its own right side.
-/

namespace FlightCurve

namespace Function

/-- Every reference in a function is below `n`, every chain in it has two members at least, and the
first member of a sum or a product is added or multiplied. -/
inductive WellScoped (n : Nat) : Function → Prop
  | parameter : WellScoped n .parameter
  | ref {index : Nat} (below : index < n) : WellScoped n (.ref index)
  | const (value : Float) : WellScoped n (.const value)
  | sum {terms : List (AddOp × Function)} (two : 2 ≤ terms.length)
      (tagged : terms.head?.map (·.1) = some .plus) (members : ∀ p ∈ terms, WellScoped n p.2) :
      WellScoped n (.sum terms)
  | product {factors : List (MulOp × Function)} (two : 2 ≤ factors.length)
      (tagged : factors.head?.map (·.1) = some .times)
      (members : ∀ p ∈ factors, WellScoped n p.2) : WellScoped n (.product factors)
  | power {bases : List Function} (two : 2 ≤ bases.length)
      (members : ∀ base ∈ bases, WellScoped n base) : WellScoped n (.power bases)
  | neg {operand : Function} (inner : WellScoped n operand) : WellScoped n (.neg operand)
  | unary (fn : UnaryFn) {operand : Function} (inner : WellScoped n operand) :
      WellScoped n (.unary fn operand)
  | binary (fn : BinaryFn) {first second : Function} (left : WellScoped n first)
      (right : WellScoped n second) : WellScoped n (.binary fn first second)

theorem WellScoped.refsBelow {n : Nat} {f : Function} (h : f.WellScoped n) :
    f.refsBelow n = true := by
  induction h with
  | parameter => rfl
  | ref below => exact decide_eq_true below
  | const value => rfl
  | sum _ _ _ ih => exact refsBelowTerms_of_forall ih
  | product _ _ _ ih => exact refsBelowFactors_of_forall ih
  | power _ _ ih => exact refsBelowAll_of_forall ih
  | neg _ ih => exact ih
  | unary _ _ ih => exact ih
  | binary _ _ _ ihLeft ihRight => exact Bool.and_eq_true_iff.2 ⟨ihLeft, ihRight⟩

/-! Trees -/

theorem wellScoped_ofChain {n : Nat} (c : Chain) {f : Function} {fs : List (c.Op × Function)}
    (hf : f.WellScoped n) (hfs : ∀ p ∈ fs, p.2.WellScoped n) : (ofChain c f fs).WellScoped n := by
  cases fs with
  | nil => cases c <;> exact hf
  | cons p fs =>
      have htwo : 2 ≤ fs.length + 1 + 1 := by omega
      cases c with
      | sum => exact .sum htwo rfl (List.forall_mem_cons.2 ⟨hf, hfs⟩)
      | product => exact .product htwo rfl (List.forall_mem_cons.2 ⟨hf, hfs⟩)
      | power =>
          refine .power ?_ ?_
          · rw [List.length_cons, List.length_map]
            exact htwo
          · rw [List.forall_mem_cons, List.forall_mem_map]
            exact ⟨hf, hfs⟩

theorem wellScoped_ofName {n : Nat} {scope : Scope} {name : Placed String} {f : Function}
    (hn : ∀ name index, scope.visible? name = some (some index) → index < n)
    (h : ofName scope name = .ok f) : f.WellScoped n := by
  unfold ofName at h
  split at h
  · cases h
    exact .const _
  · split at h
    · rename_i index hindex
      cases h
      exact .ref (hn _ _ hindex)
    · cases h
      exact .parameter
    · cases h

-- one case for each form of tree: only names make references, and only chains make chains
mutual

/-- What is compiled in a scope is well scoped below any bound on the visible indices. -/
theorem wellScoped_ofTree {n : Nat} {scope : Scope}
    (hn : ∀ name index, scope.visible? name = some (some index) → index < n)
    {r : Rule} (tree : Tree r) {f : Function} (h : ofTree scope tree = .ok f) :
    f.WellScoped n := by
  match tree, h with
  | .chain first rest, h =>
      simp only [ofTree] at h
      obtain ⟨g, hg, h⟩ := Outcome.bind_eq_ok_iff.1 h
      obtain ⟨gs, hgs, h⟩ := Outcome.bind_eq_ok_iff.1 h
      cases h
      exact wellScoped_ofChain _ (wellScoped_ofTree hn first hg) (wellScoped_ofTail hn rest hgs)
  | .signed negated operand, h =>
      simp only [ofTree] at h
      obtain ⟨g, hg, h⟩ := Outcome.bind_eq_ok_iff.1 h
      have hinner := wellScoped_ofTree hn operand hg
      cases h
      cases negated with
      | false => exact hinner
      | true => exact .neg hinner
  | .callOne name argument, h =>
      simp only [ofTree] at h
      split at h
      · cases h
      · rename_i fn _
        obtain ⟨g, hg, h⟩ := Outcome.bind_eq_ok_iff.1 h
        cases h
        exact .unary fn (wellScoped_ofTree hn argument hg)
  | .callTwo name first second, h =>
      simp only [ofTree] at h
      split at h
      · cases h
      · rename_i fn _
        obtain ⟨g, hg, h⟩ := Outcome.bind_eq_ok_iff.1 h
        obtain ⟨g', hg', h⟩ := Outcome.bind_eq_ok_iff.1 h
        cases h
        exact .binary fn (wellScoped_ofTree hn first hg) (wellScoped_ofTree hn second hg')
  | .plain primary, h =>
      simp only [ofTree] at h
      exact wellScoped_ofTree hn primary h
  | .group inner, h =>
      simp only [ofTree] at h
      exact wellScoped_ofTree hn inner h
  | .variable name, h =>
      simp only [ofTree] at h
      exact wellScoped_ofName hn h
  | .number literal, h =>
      simp only [ofTree] at h
      cases h
      exact .const _

theorem wellScoped_ofTail {n : Nat} {scope : Scope}
    (hn : ∀ name index, scope.visible? name = some (some index) → index < n)
    {c : Chain} (tail : Tail c) {fs : List (c.Op × Function)} (h : ofTail scope tail = .ok fs) :
    ∀ p ∈ fs, p.2.WellScoped n := by
  match tail, h with
  | .done, h =>
      cases h
      intro p hp
      cases hp
  | .step op operand rest, h =>
      simp only [ofTail] at h
      obtain ⟨g, hg, h⟩ := Outcome.bind_eq_ok_iff.1 h
      obtain ⟨gs, hgs, h⟩ := Outcome.bind_eq_ok_iff.1 h
      cases h
      rw [List.forall_mem_cons]
      exact ⟨wellScoped_ofTree hn operand hg, wellScoped_ofTail hn rest hgs⟩

end

/-! Assignments -/

theorem wellScoped_ofAssignment {scope next : Scope} {a : Assignment} {f : Function}
    (hs : scope.Bounded) (h : ofAssignment scope a = .ok (f, next)) :
    f.WellScoped scope.count := by
  unfold ofAssignment at h
  split at h
  · cases h
  · split at h
    · cases h
    · obtain ⟨g, hg, h⟩ := Outcome.bind_eq_ok_iff.1 h
      cases h
      exact wellScoped_ofTree (hs.visible_define _) a.value hg

/-- The function at each index refers to the ones before it only. -/
theorem wellScoped_ofAssignments {scope last : Scope} {as : List Assignment} {fs : List Function}
    (hs : scope.Bounded) (h : ofAssignments scope as = .ok (fs, last)) :
    ∀ (k : Nat) (f : Function), fs[k]? = some f → f.WellScoped (scope.count + k) := by
  induction as generalizing scope fs with
  | nil =>
      cases h
      intro k f hf
      cases hf
  | cons a as ih =>
      simp only [ofAssignments] at h
      obtain ⟨⟨g, next⟩, hg, h⟩ := Outcome.bind_eq_ok_iff.1 h
      obtain ⟨⟨gs, last'⟩, hgs, h⟩ := Outcome.bind_eq_ok_iff.1 h
      cases h
      obtain ⟨_, hbounded, hcount⟩ := ofAssignment_eq_ok hs hg
      intro k f hf
      cases k with
      | zero =>
          cases hf
          exact wellScoped_ofAssignment hs hg
      | succ k =>
          have hrest := ih hbounded hgs k f hf
          rwa [hcount, Nat.add_assoc, Nat.add_comm 1 k] at hrest

end Function

/-! Sources -/

theorem wellScoped_compileExpr {source : String} {scope : Scope} {axis : Option String}
    {f : Function} (hs : scope.Bounded) (h : compileExpr source scope axis = .ok f) :
    f.WellScoped scope.count := by
  obtain ⟨tree, _, h⟩ := Outcome.bind_eq_ok_iff.1 h
  exact Function.wellScoped_ofTree hs.visible tree (Outcome.mapError_eq_ok_iff.1 h)

theorem wellScoped_compileAssignments {source : String} {fs : List Function} {scope : Scope}
    (h : compileAssignments source = .ok (fs, scope)) :
    ∀ (k : Nat) (f : Function), fs[k]? = some f → f.WellScoped k := by
  obtain ⟨as, _, h⟩ := Outcome.bind_eq_ok_iff.1 h
  intro k f hf
  have hk := Function.wellScoped_ofAssignments Scope.bounded_initial
    (Outcome.mapError_eq_ok_iff.1 h) k f hf
  rwa [show Scope.initial.count + k = k from Nat.zero_add k] at hk

end FlightCurve

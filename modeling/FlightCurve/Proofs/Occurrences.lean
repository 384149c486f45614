import FlightCurve.Proofs.Clause
import FlightCurve.Proofs.CurveExpression
import FlightCurve.Proofs.Positions

/-!
Occurrences of names. A name in a source is the target of an assignment, the name of a call or a
variable; trees and assignments are listed here as the occurrences in them, each with the names that
are known where it stands.

The main facts are that the occurrences are the identifiers of the source, but for the words that
belong to no assignment and no expression, and that they are listed in the order of the text.
-/

namespace FlightCurve

/-- What a name is used for. -/
inductive Role
  | target
  | call (arity : Arity)
  | variable
  deriving DecidableEq, Repr

/-- A name where the source states it, with the names that are known there. -/
structure Occurrence where
  role : Role
  word : Placed String
  known : List String
  deriving DecidableEq, Repr

mutual

/-- The occurrences in a tree, in the order of the text. -/
def Tree.occurrences (known : List String) {r : Rule} : Tree r → List Occurrence
  | .chain first rest => first.occurrences known ++ rest.occurrences known
  | .signed _ operand => operand.occurrences known
  | .callOne name argument => ⟨.call .one, name, known⟩ :: argument.occurrences known
  | .callTwo name first second =>
      ⟨.call .two, name, known⟩ :: (first.occurrences known ++ second.occurrences known)
  | .plain primary => primary.occurrences known
  | .group inner => inner.occurrences known
  | .variable name => [⟨.variable, name, known⟩]
  | .number _ => []

def Tail.occurrences (known : List String) {c : Chain} : Tail c → List Occurrence
  | .done => []
  | .step _ operand rest => operand.occurrences known ++ rest.occurrences known

end

def Assignment.occurrences (known : List String) (a : Assignment) : List Occurrence :=
  ⟨.target, a.target, known⟩ :: a.value.occurrences known

namespace Occurrence

/-- The occurrences in assignments. A target is known from the next assignment on. -/
def ofAssignments (known : List String) : List Assignment → List Occurrence
  | [] => []
  | a :: rest => a.occurrences known ++ ofAssignments (a.target.value :: known) rest

/-- The occurrences in a where clause, before which the parameter alone is known. -/
def ofClause (as : List Assignment) : List Occurrence := ofAssignments [parameterName] as

end Occurrence

/-! The names known at an occurrence -/

mutual

theorem Tree.known_of_mem {known : List String} {r : Rule} (tree : Tree r) {o : Occurrence}
    (h : o ∈ tree.occurrences known) : o.known = known ∧ o.role ≠ .target := by
  match tree, h with
  | .chain first rest, h =>
      rcases List.mem_append.1 h with h | h
      · exact first.known_of_mem h
      · exact rest.known_of_mem h
  | .signed _ operand, h => exact operand.known_of_mem h
  | .callOne name argument, h =>
      rcases List.mem_cons.1 h with rfl | h
      · exact ⟨rfl, by simp⟩
      · exact argument.known_of_mem h
  | .callTwo name first second, h =>
      rcases List.mem_cons.1 h with rfl | h
      · exact ⟨rfl, by simp⟩
      · rcases List.mem_append.1 h with h | h
        · exact first.known_of_mem h
        · exact second.known_of_mem h
  | .plain primary, h => exact primary.known_of_mem h
  | .group inner, h => exact inner.known_of_mem h
  | .variable name, h =>
      obtain rfl := List.mem_singleton.1 h
      exact ⟨rfl, by simp⟩
  | .number _, h => cases h

theorem Tail.known_of_mem {known : List String} {c : Chain} (tail : Tail c) {o : Occurrence}
    (h : o ∈ tail.occurrences known) : o.known = known ∧ o.role ≠ .target := by
  match tail, h with
  | .done, h => cases h
  | .step _ operand rest, h =>
      rcases List.mem_append.1 h with h | h
      · exact operand.known_of_mem h
      · exact rest.known_of_mem h

end

theorem Assignment.known_of_mem {known : List String} {a : Assignment} {o : Occurrence}
    (h : o ∈ a.occurrences known) : o.known = known := by
  rcases List.mem_cons.1 h with rfl | h
  · rfl
  · exact (a.value.known_of_mem h).1

/-- What is known at an occurrence was known before all assignments, or is a target before it. -/
theorem Occurrence.target_of_known {known : List String} {as : List Assignment}
    {before after : List Occurrence} {o : Occurrence}
    (h : ofAssignments known as = before ++ o :: after) {name : String} (hname : name ∈ o.known) :
    name ∈ known ∨ ∃ o' ∈ before, o'.role = .target ∧ o'.word.value = name := by
  induction as generalizing known before with
  | nil => exact absurd h (by simp [ofAssignments])
  | cons a as ih =>
      rcases List.append_eq_append_iff.1 h with ⟨others, rfl, hrest⟩ | ⟨others, ha, hrest⟩
      · rcases ih hrest with hknown | ⟨o', ho', htarget⟩
        · rcases List.mem_cons.1 hknown with rfl | hknown
          · exact .inr ⟨_, List.mem_append_left _ List.mem_cons_self, rfl, rfl⟩
          · exact .inl hknown
        · exact .inr ⟨o', List.mem_append_right _ ho', htarget⟩
      · cases others with
        | nil =>
            -- the occurrence is the first one of the next assignment
            rw [List.append_nil] at ha
            subst ha
            have hfirst : ofAssignments (a.target.value :: known) as = [] ++ o :: after :=
              hrest.symm
            rcases ih hfirst with hknown | ⟨o', ho', _⟩
            · rcases List.mem_cons.1 hknown with rfl | hknown
              · exact .inr ⟨⟨.target, a.target, known⟩, List.mem_cons_self, rfl, rfl⟩
              · exact .inl hknown
            · cases ho'
        | cons o' others =>
            obtain ⟨rfl, _⟩ := List.cons.inj hrest
            have hmem : o ∈ a.occurrences known := ha ▸ List.mem_append_right _ List.mem_cons_self
            exact .inl (Assignment.known_of_mem hmem ▸ hname)

/-! Identifiers -/

/-- The identifiers among tokens, each with its place. -/
def identifiers (ts : List Token) : List (Placed String) :=
  (ts.filter (·.kind = .ident)).map Token.placed

theorem identifiers_append (ts us : List Token) :
    identifiers (ts ++ us) = identifiers ts ++ identifiers us := by
  rw [identifiers, List.filter_append, List.map_append]
  rfl

theorem identifiers_cons_of_ident {tok : Token} (h : tok.kind = .ident) (ts : List Token) :
    identifiers (tok :: ts) = tok.placed :: identifiers ts := by
  rw [identifiers, List.filter_cons_of_pos (by simp [h])]
  rfl

theorem identifiers_cons_of_ne {tok : Token} (h : tok.kind ≠ .ident) (ts : List Token) :
    identifiers (tok :: ts) = identifiers ts := by
  rw [identifiers, List.filter_cons_of_neg (by simp [h])]
  rfl

theorem identifiers_of_separates {seps : List Token} (h : ∀ tok ∈ seps, tok.Separates) :
    identifiers seps = [] := by
  rw [identifiers, List.filter_eq_nil_iff.2, List.map_nil]
  intro tok htok
  rcases h tok htok with hkind | hkind <;> simp [hkind]

theorem Chain.opKind_ne_ident (c : Chain) (op : c.Op) : c.opKind op ≠ .ident := by
  cases c <;> cases op <;> decide

mutual

/-- The occurrences in a tree are the identifiers of its tokens. -/
theorem Tree.identifiers_of_fit (known : List String) {r : Rule} (tree : Tree r) {ts : List Token}
    (h : Fit tree.flatten ts) : identifiers ts = (tree.occurrences known).map Occurrence.word := by
  match tree, h with
  | .chain first rest, h =>
      obtain ⟨us, vs, rfl, hus, hvs⟩ := Tree.fit_chain h
      rw [identifiers_append, Tree.occurrences, List.map_append,
        first.identifiers_of_fit known hus, rest.identifiers_of_fit known hvs]
  | .signed true operand, h =>
      obtain ⟨sign, us, rfl, hsign, hus⟩ := Tree.fit_negated h
      rw [identifiers_cons_of_ne (by simp [hsign]), Tree.occurrences,
        operand.identifiers_of_fit known hus]
  | .signed false operand, h => exact operand.identifiers_of_fit known h
  | .callOne name argument, h =>
      obtain ⟨tok, us, rfl, hident, rfl, hus⟩ := Tree.fit_callOne h
      rw [identifiers_cons_of_ident hident, Tree.occurrences, List.map_cons,
        argument.identifiers_of_fit known hus]
  | .callTwo name first second, h =>
      obtain ⟨tok, us, vs, rfl, hident, rfl, hus, hvs⟩ := Tree.fit_callTwo h
      rw [identifiers_cons_of_ident hident, identifiers_append, Tree.occurrences, List.map_cons,
        List.map_append, first.identifiers_of_fit known hus, second.identifiers_of_fit known hvs]
  | .plain primary, h => exact primary.identifiers_of_fit known h
  | .group inner, h =>
      obtain ⟨left, us, right, rfl, hleft, hus, hright⟩ := Tree.fit_group h
      rw [identifiers_cons_of_ne (by simp [hleft]), identifiers_append,
        identifiers_cons_of_ne (by simp [hright]), Tree.occurrences,
        inner.identifiers_of_fit known hus]
      exact List.append_nil _
  | .variable name, h =>
      obtain ⟨tok, rfl, hident, rfl⟩ := Tree.fit_variable h
      exact identifiers_cons_of_ident hident []
  | .number literal, h =>
      obtain ⟨tok, rfl, hnumber, _⟩ := Tree.fit_number h
      exact identifiers_cons_of_ne (by simp [hnumber]) []

theorem Tail.identifiers_of_fit (known : List String) {c : Chain} (tail : Tail c) {ts : List Token}
    (h : Fit tail.flatten ts) : identifiers ts = (tail.occurrences known).map Occurrence.word := by
  match tail, h with
  | .done, h =>
      obtain rfl := List.forall₂_nil_left_iff.1 h
      rfl
  | .step op operand rest, h =>
      obtain ⟨tok, us, vs, rfl, hkind, _, hus, hvs⟩ := Tail.fit_step h
      rw [identifiers_cons_of_ne (hkind ▸ c.opKind_ne_ident op.value), identifiers_append,
        Tail.occurrences, List.map_append, operand.identifiers_of_fit known hus,
        rest.identifiers_of_fit known hvs]

end

theorem Assignment.Fits.identifiers {a : Assignment} {tokens : AssignmentTokens}
    (h : a.Fits tokens) (hvalid : tokens.Valid) (known : List String) :
    identifiers tokens.all = (a.occurrences known).map Occurrence.word := by
  rw [AssignmentTokens.all, identifiers_cons_of_ident hvalid.ident,
    identifiers_cons_of_ne (by simp [hvalid.equals]), ← h.target,
    a.value.identifiers_of_fit known h.value]
  rfl

/-- The occurrences in assignments are the identifiers of their tokens. -/
theorem SeparatedAssignments.identifiers {all : List AssignmentTokens} {ts : List Token}
    (h : SeparatedAssignments all ts) {as : List Assignment}
    (hfits : List.Forall₂ Assignment.Fits as all) (known : List String) :
    identifiers ts = (Occurrence.ofAssignments known as).map Occurrence.word := by
  induction all generalizing ts as known with
  | nil =>
      obtain rfl := List.forall₂_nil_right_iff.1 hfits
      cases h with
      | empty separates => exact identifiers_of_separates separates
  | cons tokens all ih =>
      obtain ⟨a, others, hfirst, hothers, rfl⟩ := List.forall₂_cons_right_iff.1 hfits
      cases h with
      | @first seps rest _ _ separates valid more =>
          rw [identifiers_append, identifiers_append, identifiers_of_separates separates,
            List.nil_append, hfirst.identifiers valid known, ih more.separated hothers,
            ← List.map_append]
          rfl

/-! Sources -/

section Sources

variable {source : String} {s : Scanned}

theorem mem_identifiers {ts : List Token} {word : Placed String} (h : word ∈ identifiers ts) :
    ∃ tok ∈ ts, tok.kind = .ident ∧ tok.placed = word := by
  obtain ⟨tok, htok, hword⟩ := List.mem_map.1 h
  rw [List.mem_filter, decide_eq_true_eq] at htok
  exact ⟨tok, htok.1, htok.2, hword⟩

/-- The identifiers of a source stand one before the other. -/
theorem pairwise_identifiers (h : scan source = .ok s) {ts : List Token}
    (hts : ts.Sublist s.tokens) :
    (identifiers ts).Pairwise fun a b => a.position.Before b.position := by
  rw [identifiers, List.pairwise_map]
  have hall : ts.Sublist s.withEof := hts.trans (List.sublist_append_left _ _)
  exact (pairwise_before_of_scan h).sublist (List.filter_sublist.trans hall)

end Sources

end FlightCurve

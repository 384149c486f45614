import Mathlib.Algebra.Group.Nat.Defs
import FlightCurve.Toml.Value

/-!
Which values can be shown. What stands in the way of one is a part of it: an integer with too many
digits, or a part that lies too deep.
-/

namespace FlightCurve.Toml

namespace Value

/-- The values that lie right in a value. -/
def children : Value → List Value
  | .array items => items
  | .table entries => entries.map (·.2)
  | _ => []

/-- The parts of a value, itself among them, with how deep they lie in it. -/
inductive Part : Nat → Value → Value → Prop
  | self (v : Value) : Part 0 v v
  | child {depth : Nat} {v c part : Value} (mem : c ∈ v.children) (below : Part depth c part) :
      Part (depth + 1) v part

/-- How deep a value nests apart from its children. -/
def ownDepth : Value → Nat
  | .moment _ _ offset => offsetDepth offset + 1
  | _ => 1

/-- What is wrong with showing a part that lies in some depth. -/
def Obstructs (part : Value) (depth room : Nat) : DisplayFault → Prop
  | .tooManyDigits => ∃ n, part = .int n ∧ 10 ^ Numeral.maxDigits ≤ n.natAbs
  | .tooDeep => room < depth + part.ownDepth

/-- What keeps a value from being shown in some room. -/
def Obstructed (v : Value) (room : Nat) (fault : DisplayFault) : Prop :=
  ∃ depth part, Part depth v part ∧ part.Obstructs depth room fault

theorem length_digits_le_iff (n : Nat) :
    (Decimal.digits n).length ≤ Numeral.maxDigits ↔ n < 10 ^ Numeral.maxDigits := by
  have hdigits : Decimal.digits n = Nat.toDigits 10 n := Nat.toList_repr
  rw [hdigits]
  exact Nat.length_toDigits_le_iff (by decide) (by decide)

variable {v : Value} {room : Nat} {fault : DisplayFault}

theorem obstructs_succ (part : Value) (depth : Nat) :
    part.Obstructs (depth + 1) (room + 1) fault ↔ part.Obstructs depth room fault := by
  cases fault with
  | tooManyDigits => rfl
  | tooDeep =>
      simp only [Obstructs]
      omega

/-- A value is obstructed by itself or in a child, which has less room. -/
theorem obstructed_succ : v.Obstructed (room + 1) fault ↔
    v.Obstructs 0 (room + 1) fault ∨ ∃ c ∈ v.children, c.Obstructed room fault := by
  constructor
  · rintro ⟨_, part, hpart, hfault⟩
    cases hpart with
    | self => exact .inl hfault
    | child hmem hbelow =>
        exact .inr ⟨_, hmem, _, part, hbelow, (obstructs_succ part _).1 hfault⟩
  · rintro (hself | ⟨c, hmem, depth, part, hbelow, hfault⟩)
    · exact ⟨0, v, .self v, hself⟩
    · exact ⟨depth + 1, part, .child hmem hbelow, (obstructs_succ part depth).2 hfault⟩

theorem obstructed_zero (v : Value) : v.Obstructed 0 .tooDeep := by
  refine ⟨0, v, .self v, ?_⟩
  cases v <;> simp [Obstructs, ownDepth]

/-- The outcome of showing some values together: each is shown, or one of them is at fault. -/
def Accounts {α : Type} (vs : List Value) (room : Nat) : Except DisplayFault α → Prop
  | .ok _ => ∀ v ∈ vs, ∃ cs, v.chars room = .ok cs
  | .error fault => ∃ v ∈ vs, v.chars room = .error fault

theorem Accounts.cons {α β : Type} {vs : List Value} {rest : Except DisplayFault α}
    (h : Accounts vs room rest) (v : Value) (f : List Char → α → β) :
    Accounts (v :: vs) room (do
      let shown ← v.chars room
      let others ← rest
      .ok (f shown others)) := by
  cases hv : v.chars room with
  | error fault => exact ⟨v, List.mem_cons_self, hv⟩
  | ok shown =>
      cases rest with
      | error fault =>
          obtain ⟨w, hmem, hw⟩ := h
          exact ⟨w, List.mem_cons_of_mem v hmem, hw⟩
      | ok others => exact List.forall_mem_cons.2 ⟨⟨shown, hv⟩, h⟩

theorem Accounts.map {α β : Type} {vs : List Value} {r : Except DisplayFault α}
    (h : Accounts vs room r) (f : α → β) :
    Accounts vs room (do
      let a ← r
      .ok (f a)) := by
  cases r <;> exact h

theorem accounts_itemsChars (items : List Value) (room : Nat) :
    Accounts items room (itemsChars items room) := by
  induction items with
  | nil => exact fun v hmem => absurd hmem List.not_mem_nil
  | cons item rest ih => exact ih.cons item _

theorem accounts_entriesChars (entries : Table) (room : Nat) :
    Accounts (entries.map (·.2)) room (entriesChars entries room) := by
  induction entries with
  | nil => exact fun v hmem => absurd hmem List.not_mem_nil
  | cons entry rest ih => exact ih.cons entry.2 _

theorem intChars_of_lt {n : Int} (h : n.natAbs < 10 ^ Numeral.maxDigits) :
    ∃ cs, intChars n = .ok cs :=
  ⟨_, if_neg (Nat.not_lt.2 ((length_digits_le_iff _).2 h))⟩

theorem intChars_of_le {n : Int} (h : 10 ^ Numeral.maxDigits ≤ n.natAbs) :
    intChars n = .error .tooManyDigits :=
  if_pos (Nat.not_le.1 (mt (length_digits_le_iff _).1 (Nat.not_lt.2 h)))

/-- The outcome of showing a value in some room: its text if nothing obstructs it, or else a fault
that does. -/
def Shows {α : Type} (v : Value) (room : Nat) : Except DisplayFault α → Prop
  | .ok _ => ∀ fault, ¬v.Obstructed room fault
  | .error fault => v.Obstructed room fault

/-- A value that holds others shows them. -/
theorem Accounts.shows {α : Type} {r : Except DisplayFault α} (h : Accounts v.children room r)
    (hself : ∀ fault, ¬v.Obstructs 0 (room + 1) fault)
    (ih : ∀ c ∈ v.children, c.Shows room (c.chars room)) : v.Shows (room + 1) r := by
  cases r with
  | error fault =>
      obtain ⟨c, hmem, hc⟩ := h
      have hchild := ih c hmem
      rw [hc] at hchild
      exact obstructed_succ.2 (.inr ⟨c, hmem, hchild⟩)
  | ok _ =>
      intro fault hv
      obtain ⟨c, hmem, hobstructed⟩ := (obstructed_succ.1 hv).resolve_left (hself fault)
      obtain ⟨cs, hc⟩ := h c hmem
      have hchild := ih c hmem
      rw [hc] at hchild
      exact hchild fault hobstructed

/-- A value that holds no others and is shown at its place. -/
theorem shows_leaf {α : Type} (a : α) (hself : ∀ fault, ¬v.Obstructs 0 (room + 1) fault)
    (hchildren : v.children = []) : v.Shows (room + 1) (.ok a : Except DisplayFault α) := by
  have hnone : Accounts v.children room (.ok a : Except DisplayFault α) := by
    rw [hchildren]
    exact fun c hmem => absurd hmem List.not_mem_nil
  refine hnone.shows hself ?_
  rw [hchildren]
  exact fun c hmem => absurd hmem List.not_mem_nil

theorem not_obstructs (hdepth : v.ownDepth ≤ room + 1)
    (hint : ∀ n, v = .int n → n.natAbs < 10 ^ Numeral.maxDigits) (fault : DisplayFault) :
    ¬v.Obstructs 0 (room + 1) fault := by
  cases fault with
  | tooManyDigits =>
      rintro ⟨n, hn, hlarge⟩
      exact absurd (hint n hn) (Nat.not_lt.2 hlarge)
  | tooDeep =>
      intro hdeep
      simp only [Obstructs] at hdeep
      omega

theorem shows_chars (v : Value) (room : Nat) : v.Shows room (v.chars room) := by
  -- the children have less room, so the induction is on the room and not on the nested value
  induction room generalizing v with
  | zero => cases v <;> exact obstructed_zero _
  | succ room ih =>
      have hplain : v.ownDepth = 1 → (∀ n, v ≠ .int n) →
          ∀ fault, ¬v.Obstructs 0 (room + 1) fault :=
        fun hdepth hint => not_obstructs (by omega) fun n hn => absurd hn (hint n)
      cases v with
      | array items =>
          exact Accounts.shows (v := .array items) ((accounts_itemsChars items room).map _)
            (hplain rfl (by simp)) fun c _ => ih c
      | table entries =>
          exact Accounts.shows (v := .table entries) ((accounts_entriesChars entries room).map _)
            (hplain rfl (by simp)) fun c _ => ih c
      | int n =>
          rw [chars]
          by_cases h : n.natAbs < 10 ^ Numeral.maxDigits
          · obtain ⟨cs, hcs⟩ := intChars_of_lt h
            rw [hcs]
            refine shows_leaf cs (not_obstructs (by simp [ownDepth]) ?_) rfl
            rintro m ⟨⟩
            exact h
          · have hlarge := Nat.le_of_not_lt h
            rw [intChars_of_le hlarge]
            exact obstructed_succ.2 (.inl ⟨n, rfl, hlarge⟩)
      | moment date time offset =>
          rw [chars]
          by_cases h : room < offsetDepth offset
          · rw [if_pos h]
            refine obstructed_succ.2 (.inl ?_)
            simp only [Obstructs, ownDepth]
            omega
          · rw [if_neg h]
            exact shows_leaf _ (not_obstructs (by simp only [ownDepth]; omega) (by simp)) rfl
      | _ => exact shows_leaf _ (hplain rfl (by simp)) rfl

/-- What a message needs of a value. -/
theorem shown_shows (v : Value) : v.Shows maxDisplayRoom v.shown := by
  have h := shows_chars v maxDisplayRoom
  rw [shown]
  cases hv : v.chars maxDisplayRoom with
  | ok cs =>
      rw [hv] at h
      exact h
  | error fault =>
      rw [hv] at h
      exact h

end Value

end FlightCurve.Toml

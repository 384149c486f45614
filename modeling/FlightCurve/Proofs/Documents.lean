import Mathlib.Tactic.SplitIfs
import FlightCurve.Toml.Document

/-!
Why a document is not read. An integer in it is found too long only if it has more digits than can
be read, whatever stands around it.
-/

namespace FlightCurve.Toml

/-- An integer is found too long only if it has more digits than can be read. -/
def Limited {α : Type} (r : Except Fault α) : Prop :=
  ∀ digits, r = .error (.longInteger digits) → Numeral.maxDigits < digits

section Limited

variable {α β : Type}

@[simp]
theorem limited_ok (a : α) : Limited (.ok a : Except Fault α) := nofun

@[simp]
theorem limited_malformed : Limited (.error .malformed : Except Fault α) := nofun

@[simp]
theorem limited_tooDeep : Limited (.error .tooDeep : Except Fault α) := nofun

theorem Limited.bind {r : Except Fault α} {next : α → Except Fault β} (h : Limited r)
    (hnext : ∀ a, Limited (next a)) : Limited (r >>= next) := by
  cases r with
  | ok a => exact hnext a
  | error fault =>
      rintro digits ⟨⟩
      exact h digits rfl

theorem Limited.map {r : Except Fault α} (h : Limited r) (f : α → β) : Limited (r.map f) := by
  cases r with
  | ok a => exact limited_ok (f a)
  | error fault =>
      rintro digits ⟨⟩
      exact h digits rfl

theorem limited_orMalformed (a? : Option α) : Limited (orMalformed a?) := by
  cases a? <;> simp [orMalformed]

end Limited

/-! Scalars -/

@[simp]
theorem limited_skipComment (cs : List Char) : Limited (skipComment cs) := by
  unfold skipComment
  split
  · split <;> simp
  · simp

@[simp]
theorem limited_skipFiller (inComment : Bool) (cs : List Char) :
    Limited (skipFiller inComment cs) := by
  fun_induction skipFiller inComment cs <;> simp_all

theorem Limited.withChar? {r : Except Fault (List Char × List Char)} (h : Limited r)
    (c? : Option Char) : Limited (withChar? c? r) := by
  cases c? with
  | none => exact limited_malformed
  | some c => exact h.map _

@[simp]
theorem limited_basicString (cs : List Char) : Limited (basicString cs) := by
  fun_induction basicString cs <;> simp_all [Limited.withChar?]

@[simp]
theorem limited_basicLines (state : LineState) (cs : List Char) :
    Limited (basicLines state cs) := by
  fun_induction basicLines state cs <;> simp_all [Limited.withChar?]

@[simp]
theorem limited_literalString (cs : List Char) : Limited (literalString cs) := by
  fun_induction literalString cs <;> simp_all [Limited.withChar?]

@[simp]
theorem limited_literalLines (cs : List Char) : Limited (literalLines cs) := by
  fun_induction literalLines cs <;> simp_all [Limited.withChar?]

theorem limited_of_string? {cs : List Char} {r : Except Fault (List Char × List Char)}
    (h : string? cs = some r) : Limited r := by
  unfold string? at h
  split at h <;> cases h <;> simp

theorem limited_of_moment? {cs : List Char} {r : Except Fault (Value × List Char)}
    (h : moment? cs = some r) : Limited r := by
  obtain ⟨⟨date, rest⟩, -, h⟩ := Option.bind_eq_some_iff.1 h
  dsimp only at h
  split at h
  · cases h
    exact limited_malformed
  · split at h <;> cases h <;> exact limited_ok _

/-- Only a decimal number can be too long an integer. -/
theorem limited_of_decimal? {cs : List Char} {r : Except Fault (Value × List Char)}
    (h : decimal? cs = some r) : Limited r := by
  unfold decimal? at h
  dsimp only at h
  split at h
  · cases h
  · split at h
    · split at h
      · rename_i hlong
        cases h
        rintro digits ⟨⟩
        exact hlong
      · cases h
        exact limited_ok _
    · cases h
      exact limited_ok _

theorem limited_of_number? {cs : List Char} {r : Except Fault (Value × List Char)}
    (h : number? cs = some r) : Limited r := by
  unfold number? at h
  dsimp only at h
  split at h
  · cases h
    exact limited_ok _
  · exact limited_of_decimal? h

theorem limited_scalar (cs : List Char) : Limited (scalar cs) := by
  unfold scalar
  split
  · rename_i hstring
    exact (limited_of_string? hstring).map _
  · exact limited_ok _
  · exact limited_ok _
  · split
    · rename_i hmoment
      exact limited_of_moment? hmoment
    · split
      · exact limited_ok _
      · split
        · rename_i hnumber
          exact limited_of_number? hnumber
        · split <;> simp

/-! Keys and values -/

theorem limited_keyPart (cs : List Char) : Limited (keyPart cs) := by
  unfold keyPart
  split
  · exact (limited_basicString _).map _
  · exact (limited_literalString _).map _
  · dsimp only
    split <;> simp

theorem limited_key (cs : List Char) : Limited (key cs) := by
  fun_induction key cs with
  | case1 cs fault hpart =>
      have h := limited_keyPart cs
      rw [hpart] at h
      rintro digits ⟨⟩
      exact h digits rfl
  | case2 cs part rest hpart more hmore hlt ih => exact ih.map _
  | case3 => exact limited_malformed
  | case4 => exact limited_ok _

section Reader

variable {value : ValueReader} (hvalue : ∀ cs, Limited (value cs))

include hvalue

theorem limited_items (cs : List Char) : Limited (items value cs) := by
  induction cs using items.induct with
  | case1 cs ih =>
      rw [items]
      refine (hvalue cs).bind fun found => (limited_skipFiller _ _).bind fun after => ?_
      split
      · exact limited_ok _
      · refine (limited_skipFiller _ _).bind fun next => ?_
        split
        · exact limited_ok _
        · split
          · rename_i hlt
            exact (ih _ hlt).bind fun _ => limited_ok _
          · exact limited_malformed
      · exact limited_malformed

theorem limited_array (cs : List Char) : Limited (array value cs) := by
  refine (limited_skipFiller false cs).bind fun rest => ?_
  split
  · exact limited_ok _
  · exact (limited_items hvalue _).bind fun _ => limited_ok _

theorem limited_pair (cs : List Char) : Limited (pair value cs) := by
  refine (limited_key cs).bind fun found => ?_
  split
  · exact (hvalue _).bind fun _ => limited_ok _
  · exact limited_malformed

theorem limited_entries (t : Table) (closed : List Key) (cs : List Char) :
    Limited (entries value t closed cs) := by
  induction t, closed, cs using entries.induct with
  | case1 t closed cs ih =>
      rw [entries]
      refine (limited_pair hvalue cs).bind fun found => ?_
      dsimp only
      split
      · exact limited_malformed
      · refine (limited_orMalformed _).bind fun t => ?_
        split
        · exact limited_ok _
        · split
          · rename_i hlt
            exact ih found.1.1 found.1.2 t _ hlt
          · exact limited_malformed
        · exact limited_malformed

theorem limited_inlineTable (cs : List Char) : Limited (inlineTable value cs) := by
  unfold inlineTable
  split
  · exact limited_ok _
  · exact (limited_entries hvalue _ _ _).map _

end Reader

theorem limited_valueWithin (room : Nat) (cs : List Char) : Limited (valueWithin room cs) := by
  induction room using Nat.strongRecOn generalizing cs with
  | ind room ih =>
      rcases room with _ | _ | _ | room
      · exact limited_tooDeep
      · exact limited_tooDeep
      · exact limited_tooDeep
      · unfold valueWithin
        split
        · exact limited_array (ih (room + 1) (by omega)) _
        · exact limited_inlineTable (ih room (by omega)) _
        · exact limited_scalar _

/-! Statements -/

namespace Document

theorem limited_assign (d : Document) (parts : Key) (v : Value) : Limited (d.assign parts v) := by
  unfold assign
  dsimp only
  split
  · exact limited_malformed
  · exact (limited_orMalformed _).bind fun _ => limited_ok _

theorem limited_openTable (d : Document) (parts : Key) : Limited (d.openTable parts) := by
  unfold openTable
  split
  · exact limited_malformed
  · exact (limited_orMalformed _).bind fun _ => limited_ok _

theorem limited_openItem (d : Document) (parts : Key) : Limited (d.openItem parts) := by
  unfold openItem
  split
  · exact limited_malformed
  · exact (limited_orMalformed _).bind fun _ => limited_ok _

theorem limited_statement (d : Document) (cs : List Char) : Limited (d.statement cs) := by
  unfold statement
  split
  · refine (limited_key _).bind fun found => ?_
    split
    · exact (limited_openItem _ _).bind fun _ => limited_ok _
    · exact limited_malformed
  · refine (limited_key _).bind fun found => ?_
    split
    · exact (limited_openTable _ _).bind fun _ => limited_ok _
    · exact limited_malformed
  · refine (limited_pair (limited_valueWithin _) _).bind fun found => ?_
    exact (limited_assign _ _ _).bind fun _ => limited_ok _

theorem limited_readLines (d : Document) (cs : List Char) : Limited (d.readLines cs) := by
  induction cs using (measure List.length).wf.induction generalizing d with
  | h cs ih =>
      rw [readLines]
      dsimp only
      split_ifs
      case' pos => refine (limited_ok _).bind fun found => ?_
      case' neg => refine (limited_statement _ _).bind fun found => ?_
      -- after a statement or without one, the line ends in the same way
      all_goals
        refine (limited_skipComment _).bind fun rest => ?_
        split
        · exact limited_ok _
        · split
          · rename_i hlt
            exact ih _ hlt _
          · exact limited_malformed
        · exact limited_malformed

end Document

theorem limited_parse (cs : List Char) : Limited (parse cs) :=
  (Document.limited_readLines _ cs).bind fun _ => limited_ok _

end FlightCurve.Toml

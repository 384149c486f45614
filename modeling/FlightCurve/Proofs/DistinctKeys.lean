import Mathlib.Data.List.Nodup
import Mathlib.Tactic.SplitIfs
import FlightCurve.Toml.Document

/-!
Tables of a document. However a table comes about, by headers, dotted keys or written out, a key
stands in it once: an entry is added only under a new key, and what is changed keeps its key.
-/

namespace FlightCurve.Toml

/-- No table in the value has a key twice. -/
inductive Value.Distinct : Value → Prop
  | plain {v : Value} (h : v.isContainer = false) : Distinct v
  | array {items : List Value} (h : ∀ item ∈ items, Distinct item) : Distinct (.array items)
  | table {entries : Table} (keys : (entries.map Prod.fst).Nodup)
      (h : ∀ entry ∈ entries, Distinct entry.2) : Distinct (.table entries)

section Tables

variable {t : Table} {key : String} {v : Value}

theorem Value.Distinct.keys (h : (Value.table t).Distinct) : (t.map Prod.fst).Nodup := by
  cases h with
  | plain h => cases h
  | table keys _ => exact keys

theorem Value.Distinct.entries (h : (Value.table t).Distinct) : ∀ entry ∈ t, entry.2.Distinct := by
  cases h with
  | plain h => cases h
  | table _ h => exact h

theorem Value.Distinct.items {items : List Value} (h : (Value.array items).Distinct) :
    ∀ item ∈ items, item.Distinct := by
  cases h with
  | plain h => cases h
  | array h => exact h

theorem distinct_nil : (Value.table []).Distinct := .table .nil nofun

theorem Value.Distinct.lookup (h : (Value.table t).Distinct) (hv : t.lookup key = some v) :
    v.Distinct := by
  obtain ⟨before, after, rfl, -⟩ := List.lookup_eq_some_iff.1 hv
  exact h.entries (key, v) (by simp)

theorem Value.Distinct.append (h : (Value.table t).Distinct) (hnew : t.lookup key = none)
    (hv : v.Distinct) : (Value.table (t ++ [(key, v)])).Distinct := by
  rw [List.lookup_eq_none_iff] at hnew
  refine .table ?_ ?_
  · rw [List.map_append, List.map_singleton, List.nodup_append]
    refine ⟨h.keys, List.nodup_singleton _, ?_⟩
    rintro _ hold _ hkey rfl
    obtain ⟨entry, hentry, rfl⟩ := List.mem_map.1 hold
    have hne := hnew entry hentry
    rw [List.mem_singleton.1 hkey] at hne
    simp at hne
  · intro entry hentry
    rcases List.mem_append.1 hentry with hold | hkey
    · exact h.entries entry hold
    · rw [List.mem_singleton.1 hkey]
      exact hv

theorem map_fst_replace (key : String) (v : Value) (t : Table) :
    (t.replace key v).map Prod.fst = t.map Prod.fst := by
  induction t with
  | nil => rfl
  | cons entry rest ih =>
      rw [Table.replace]
      split
      · rename_i hkey
        rw [List.map_cons, List.map_cons, hkey]
      · rw [List.map_cons, List.map_cons, ih]

theorem mem_replace {entry : String × Value} (h : entry ∈ t.replace key v) :
    entry = (key, v) ∨ entry ∈ t := by
  induction t with
  | nil => cases h
  | cons first rest ih =>
      rw [Table.replace] at h
      split at h
      · rcases List.mem_cons.1 h with rfl | h
        · exact .inl rfl
        · exact .inr (List.mem_cons_of_mem _ h)
      · rcases List.mem_cons.1 h with rfl | h
        · exact .inr List.mem_cons_self
        · exact (ih h).imp_right (List.mem_cons_of_mem _)

theorem Value.Distinct.replace (h : (Value.table t).Distinct) (key : String) (hv : v.Distinct) :
    (Value.table (t.replace key v)).Distinct := by
  refine .table ?_ fun entry hentry => ?_
  · rw [map_fst_replace]
    exact h.keys
  · rcases mem_replace hentry with rfl | hold
    · exact hv
    · exact h.entries entry hold

theorem Value.Distinct.append_item {items : List Value} (h : (Value.array items).Distinct)
    (hv : v.Distinct) : (Value.array (items ++ [v])).Distinct := by
  refine .array fun item hitem => ?_
  rcases List.mem_append.1 hitem with hold | hlast
  · exact h.items item hold
  · rw [List.mem_singleton.1 hlast]
    exact hv

/-- A change that keeps keys distinct, does so from any table on the way. -/
theorem distinct_modify {throughArrays : Bool} {change : Table → Option Table}
    (hchange : ∀ t t', (Value.table t).Distinct → change t = some t' → (Value.table t').Distinct)
    {path : Key} {t' : Table} (h : (Value.table t).Distinct)
    (hmodify : t.modify throughArrays change path = some t') : (Value.table t').Distinct := by
  induction path generalizing t t' with
  | nil => exact hchange t t' h hmodify
  | cons part path ih =>
      rw [Table.modify] at hmodify
      split at hmodify
      · rename_i hnew
        obtain ⟨inner, hinner, rfl⟩ := Option.map_eq_some_iff.1 hmodify
        exact h.append hnew (ih distinct_nil hinner)
      · rename_i hold
        obtain ⟨inner, hinner, rfl⟩ := Option.map_eq_some_iff.1 hmodify
        exact h.replace part (ih (h.lookup hold) hinner)
      · rename_i items hold
        split at hmodify
        · rename_i last hlast
          obtain ⟨inner, hinner, rfl⟩ := Option.map_eq_some_iff.1 hmodify
          have hitems := h.lookup hold
          have hbefore : (Value.array items.dropLast).Distinct :=
            .array fun item hitem => hitems.items item (List.dropLast_subset items hitem)
          have hinner := ih (hitems.items _ (List.mem_of_getLast? hlast)) hinner
          exact h.replace part (hbefore.append_item hinner)
        · cases hmodify
      · cases hmodify

theorem distinct_add? (hv : v.Distinct) (t t' : Table) (h : (Value.table t).Distinct)
    (hadd : t.add? key v = some t') : (Value.table t').Distinct := by
  rw [Table.add?] at hadd
  split at hadd
  · cases hadd
  · rename_i hnew
    cases hadd
    exact h.append (Option.not_isSome_iff_eq_none.1 hnew) hv

theorem distinct_addItem? (t t' : Table) (h : (Value.table t).Distinct)
    (hadd : t.addItem? key = some t') : (Value.table t').Distinct := by
  rw [Table.addItem?] at hadd
  split at hadd
  · rename_i hnew
    cases hadd
    have hitem : (Value.array [.table []]).Distinct :=
      .array (List.forall_mem_singleton.2 distinct_nil)
    exact h.append hnew hitem
  · rename_i hold
    cases hadd
    exact h.replace key ((h.lookup hold).append_item distinct_nil)
  · cases hadd

end Tables

/-! What is read -/

/-- What is read has a property. -/
def Yields {α : Type} (P : α → Prop) (r : Except Fault α) : Prop := ∀ a, r = .ok a → P a

section Yields

variable {α β : Type} {P : α → Prop} {Q : β → Prop}

theorem yields_ok {a : α} (h : P a) : Yields P (.ok a) := by
  rintro _ ⟨⟩
  exact h

theorem yields_error (fault : Fault) : Yields P (.error fault) := nofun

theorem Yields.bind {r : Except Fault α} {next : α → Except Fault β} (h : Yields P r)
    (hnext : ∀ a, P a → Yields Q (next a)) : Yields Q (r >>= next) := by
  cases r with
  | ok a => exact hnext a (h a rfl)
  | error fault => exact yields_error fault

theorem Yields.map {r : Except Fault α} {f : α → β} (h : Yields P r) (hf : ∀ a, P a → Q (f a)) :
    Yields Q (r.map f) := by
  cases r with
  | ok a => exact yields_ok (hf a (h a rfl))
  | error fault => exact yields_error fault

theorem yields_any (r : Except Fault α) : Yields (fun _ => True) r := fun _ _ => trivial

theorem yields_orMalformed {a? : Option α} (h : ∀ a, a? = some a → P a) :
    Yields P (orMalformed a?) := by
  cases a? with
  | none => exact yields_error .malformed
  | some a => exact yields_ok (h a rfl)

end Yields

/-! Scalars are neither arrays nor tables -/

theorem plain_of_moment? {cs : List Char} {r : Except Fault (Value × List Char)}
    (h : moment? cs = some r) : Yields (fun found => found.1.isContainer = false) r := by
  obtain ⟨⟨date, rest⟩, -, h⟩ := Option.bind_eq_some_iff.1 h
  dsimp only at h
  split at h
  · cases h
    exact yields_error _
  · split at h <;> cases h <;> exact yields_ok rfl

theorem plain_of_basedInt? {base : Nat} {isDigit : Char → Bool} {cs : List Char}
    {found : Value × List Char} (h : basedInt? base isDigit cs = some found) :
    found.1.isContainer = false := by
  unfold basedInt? at h
  dsimp only at h
  split at h <;> cases h
  rfl

theorem plain_of_decimal? {cs : List Char} {r : Except Fault (Value × List Char)}
    (h : decimal? cs = some r) : Yields (fun found => found.1.isContainer = false) r := by
  unfold decimal? at h
  dsimp only at h
  split at h
  · cases h
  · split at h
    · split at h
      · cases h
        exact yields_error _
      · cases h
        exact yields_ok rfl
    · cases h
      exact yields_ok rfl

theorem plain_of_number? {cs : List Char} {r : Except Fault (Value × List Char)}
    (h : number? cs = some r) : Yields (fun found => found.1.isContainer = false) r := by
  unfold number? at h
  dsimp only at h
  split at h
  · rename_i hbased
    cases h
    refine yields_ok ?_
    split at hbased
    · exact plain_of_basedInt? hbased
    · exact plain_of_basedInt? hbased
    · exact plain_of_basedInt? hbased
    · cases hbased
  · exact plain_of_decimal? h

theorem plain_of_special? {cs : List Char} {found : Value × List Char}
    (h : special? cs = some found) : found.1.isContainer = false := by
  unfold special? at h
  dsimp only at h
  split at h <;> cases h <;> rfl

theorem plain_scalar (cs : List Char) :
    Yields (fun found => found.1.isContainer = false) (scalar cs) := by
  unfold scalar
  split
  · exact (yields_any _).map fun _ _ => rfl
  · exact yields_ok rfl
  · exact yields_ok rfl
  · split
    · rename_i hmoment
      exact plain_of_moment? hmoment
    · split
      · exact yields_ok rfl
      · split
        · rename_i hnumber
          exact plain_of_number? hnumber
        · split
          · rename_i hspecial
            exact yields_ok (plain_of_special? hspecial)
          · exact yields_error _

/-! Values -/

section Reader

variable {value : ValueReader} (hvalue : ∀ cs, Yields (fun found => found.1.Distinct) (value cs))

include hvalue

theorem distinct_items (cs : List Char) :
    Yields (fun found => ∀ item ∈ found.1, item.Distinct) (items value cs) := by
  induction cs using items.induct with
  | case1 cs ih =>
      rw [items]
      refine (hvalue cs).bind fun first hfirst => (yields_any _).bind fun after _ => ?_
      split
      · exact yields_ok (List.forall_mem_singleton.2 hfirst)
      · refine (yields_any _).bind fun next _ => ?_
        split
        · exact yields_ok (List.forall_mem_singleton.2 hfirst)
        · split
          · rename_i hlt
            exact (ih _ hlt).bind fun others hothers =>
              yields_ok (List.forall_mem_cons.2 ⟨hfirst, hothers⟩)
          · exact yields_error _
      · exact yields_error _

theorem distinct_array (cs : List Char) :
    Yields (fun found => found.1.Distinct) (array value cs) := by
  refine (yields_any (skipFiller false cs)).bind fun rest _ => ?_
  split
  · exact yields_ok (.array (List.forall_mem_nil _))
  · exact (distinct_items hvalue _).bind fun found hfound => yields_ok (.array hfound)

theorem distinct_pair (cs : List Char) :
    Yields (fun found => found.1.2.Distinct) (pair value cs) := by
  refine (yields_any (key cs)).bind fun found _ => ?_
  split
  · exact (hvalue _).bind fun found hfound => yields_ok hfound
  · exact yields_error _

theorem distinct_entries {t : Table} (closed : List Key) (cs : List Char)
    (h : (Value.table t).Distinct) :
    Yields (fun found => (Value.table found.1).Distinct) (entries value t closed cs) := by
  induction t, closed, cs using entries.induct with
  | case1 t closed cs ih =>
      rw [entries]
      refine (distinct_pair hvalue cs).bind fun found hfound => ?_
      dsimp only
      split
      · exact yields_error _
      · refine (yields_orMalformed fun t' ht' =>
          distinct_modify (distinct_add? hfound) h ht').bind fun t' ht' => ?_
        split
        · exact yields_ok ht'
        · split
          · rename_i hlt
            exact ih found.1.1 found.1.2 t' _ hlt ht'
          · exact yields_error _
        · exact yields_error _

theorem distinct_inlineTable (cs : List Char) :
    Yields (fun found => found.1.Distinct) (inlineTable value cs) := by
  unfold inlineTable
  split
  · exact yields_ok distinct_nil
  · exact (distinct_entries hvalue _ _ distinct_nil).map fun _ h => h

end Reader

theorem distinct_valueWithin (room : Nat) (cs : List Char) :
    Yields (fun found => found.1.Distinct) (valueWithin room cs) := by
  induction room using Nat.strongRecOn generalizing cs with
  | ind room ih =>
      rcases room with _ | _ | _ | room
      · exact yields_error _
      · exact yields_error _
      · exact yields_error _
      · unfold valueWithin
        split
        · exact distinct_array (ih (room + 1) (by omega)) _
        · exact distinct_inlineTable (ih room (by omega)) _
        · exact fun found hfound => .plain (plain_scalar _ found hfound)

/-! Statements -/

namespace Document

/-- No table of the document has a key twice so far. -/
def Distinct (d : Document) : Prop := (Value.table d.root).Distinct

section Statements

variable {d : Document} (h : d.Distinct)
include h

theorem distinct_assign (parts : Key) {v : Value} (hv : v.Distinct) :
    Yields Distinct (d.assign parts v) := by
  unfold assign
  dsimp only
  split
  · exact yields_error _
  · refine (yields_orMalformed fun root hroot =>
      distinct_modify (distinct_add? hv) h hroot).bind fun root hroot => ?_
    exact yields_ok hroot

theorem distinct_openTable (parts : Key) : Yields Distinct (d.openTable parts) := by
  unfold openTable
  split
  · exact yields_error _
  · have hkeep : ∀ t t', (Value.table t).Distinct → some t = some t' →
        (Value.table t').Distinct := by
      rintro t _ ht ⟨⟩
      exact ht
    refine (yields_orMalformed fun root hroot =>
      distinct_modify hkeep h hroot).bind fun root hroot => ?_
    exact yields_ok hroot

theorem distinct_openItem (parts : Key) : Yields Distinct (d.openItem parts) := by
  unfold openItem
  split
  · exact yields_error _
  · refine (yields_orMalformed fun root hroot =>
      distinct_modify distinct_addItem? h hroot).bind fun root hroot => ?_
    exact yields_ok hroot

theorem distinct_statement (cs : List Char) :
    Yields (fun found => found.1.Distinct) (d.statement cs) := by
  have hsettle : d.settle.Distinct := h
  unfold statement
  split
  · refine (yields_any (key _)).bind fun found _ => ?_
    split
    · exact (distinct_openItem hsettle _).bind fun _ hd => yields_ok hd
    · exact yields_error _
  · refine (yields_any (key _)).bind fun found _ => ?_
    split
    · exact (distinct_openTable hsettle _).bind fun _ hd => yields_ok hd
    · exact yields_error _
  · refine (distinct_pair (distinct_valueWithin _) _).bind fun found hfound => ?_
    exact (distinct_assign h _ hfound).bind fun _ hd => yields_ok hd

theorem distinct_readLines (cs : List Char) : Yields Distinct (d.readLines cs) := by
  induction cs using (measure List.length).wf.induction generalizing d with
  | h cs ih =>
      rw [readLines]
      dsimp only
      split_ifs
      case' pos =>
        refine Yields.bind (P := fun found => found.1.Distinct) (yields_ok h) fun found hfound => ?_
      case' neg => refine (distinct_statement h _).bind fun found hfound => ?_
      -- after a statement or without one, the line ends in the same way
      all_goals
        refine (yields_any (skipComment _)).bind fun rest _ => ?_
        split
        · exact yields_ok hfound
        · split
          · rename_i hlt
            exact ih _ hlt hfound
          · exact yields_error _
        · exact yields_error _

end Statements

end Document

/-- No table that is read has a key twice. -/
theorem distinct_parse (cs : List Char) :
    Yields (fun root => (Value.table root).Distinct) (parse cs) := by
  have hempty : Document.Distinct { root := [] } := distinct_nil
  exact (Document.distinct_readLines hempty cs).bind fun _ hd => yields_ok hd

end FlightCurve.Toml

import FlightCurve.Proofs.Clause
import FlightCurve.Proofs.Cursor

/-!
The steps of a cursor. Where the tokens that count after a cursor are known, the current token is
the first of them, and looking ahead finds the others. No look-up is out of range.
-/

namespace FlightCurve

namespace Cursor

/-! The tokens that count -/

/-- The tokens that count where `depth` parentheses are open. -/
def remaining (separating : Bool) (depth : Nat) (ts : List Token) : List Token :=
  if separating then significant depth ts else withoutNewlines ts

theorem remaining_nil (separating : Bool) (depth : Nat) : remaining separating depth [] = [] := by
  cases separating <;> rfl

theorem remaining_cons (separating : Bool) (depth : Nat) (tok : Token) (rest : List Token) :
    remaining separating depth (tok :: rest) =
      if tok.kind = .newline ∧ (separating = false ∨ 0 < depth) then
        remaining separating depth rest
      else tok :: remaining separating (tok.openAfter depth) rest := by
  cases separating with
  | true => simpa [remaining] using significant_cons depth tok rest
  | false =>
      by_cases hnewline : tok.kind = .newline
      · simp [remaining, withoutNewlines, hnewline]
      · simp [remaining, withoutNewlines, hnewline]

theorem withoutNewlines_remaining (separating : Bool) (depth : Nat) (ts : List Token) :
    withoutNewlines (remaining separating depth ts) = withoutNewlines ts := by
  induction ts generalizing depth with
  | nil => rw [remaining_nil]
  | cons tok rest ih =>
      rw [remaining_cons]
      split
      · rename_i hblank
        rw [ih, withoutNewlines, withoutNewlines, List.filter_cons_of_neg]
        simpa using hblank.1
      · rw [withoutNewlines, List.filter_cons]
        change (if _ then _ :: withoutNewlines _ else withoutNewlines _) = _
        rw [ih, withoutNewlines, withoutNewlines, List.filter_cons]

/-! Where a cursor stands -/

section Steps

variable {s : Scanned} {separating : Bool} {c : Cursor} {tok : Token} {rest : List Token}

/-- The tokens that count after a cursor, or at it, are `rest`. -/
structure Stands (s : Scanned) (separating : Bool) (c : Cursor) (rest : List Token) : Prop where
  bound : c.index ≤ s.tokens.length
  rest : remaining separating c.depth (s.tokens.drop c.index) = rest

/-- The cursor has come to the first token of `rest`, or to the end. -/
inductive Settled (s : Scanned) (separating : Bool) (c : Cursor) : List Token → Prop
  | atEnd (last : c.index = s.tokens.length) : Settled s separating c []
  | atToken {tok : Token} {rest : List Token} (here : s.tokens[c.index]? = some tok)
      (counts : ¬(tok.kind = .newline ∧ (separating = false ∨ 0 < c.depth)))
      (after : Stands s separating ⟨c.index + 1, tok.openAfter c.depth⟩ rest) :
      Settled s separating c (tok :: rest)

theorem withEof_getElem? {i : Nat} (h : s.tokens[i]? = some tok) : s.withEof[i]? = some tok := by
  have hlt : i < s.tokens.length := (List.getElem?_eq_some_iff.1 h).1
  rw [Scanned.withEof, List.getElem?_append_left hlt]
  exact h

theorem withEof_getElem?_length : s.withEof[s.tokens.length]? = some (.eof s.finish) := by
  rw [Scanned.withEof, List.getElem?_concat_length]

theorem length_withEof : s.withEof.length = s.tokens.length + 1 := by
  rw [Scanned.withEof, List.length_append]
  rfl

theorem current_of_getElem? {tokens : List Token} (h : tokens[c.index]? = some tok) :
    current tokens separating c =
      if tok.kind = .newline ∧ (separating = false ∨ 0 < c.depth) then
        current tokens separating ⟨c.index + 1, c.depth⟩
      else .ok (tok, c) := by
  rw [current]
  split
  · rename_i hnone
    rw [h] at hnone
    cases hnone
  · rename_i tok' hsome
    rw [h] at hsome
    cases hsome
    rfl

theorem current_of_counts {tokens : List Token} (h : tokens[c.index]? = some tok)
    (hcounts : ¬(tok.kind = .newline ∧ (separating = false ∨ 0 < c.depth))) :
    current tokens separating c = .ok (tok, c) := by
  rw [current_of_getElem? h, if_neg hcounts]

theorem Settled.stands (h : Settled s separating c rest) : Stands s separating c rest := by
  cases h with
  | atEnd last =>
      refine ⟨by omega, ?_⟩
      rw [last, List.drop_length, remaining_nil]
  | @atToken tok rest here counts after =>
      have hlt : c.index < s.tokens.length := (List.getElem?_eq_some_iff.1 here).1
      refine ⟨by omega, ?_⟩
      rw [List.drop_eq_getElem?_toList_append, here]
      change remaining separating c.depth (tok :: s.tokens.drop (c.index + 1)) = _
      rw [remaining_cons, if_neg counts, after.rest]

theorem current_of_settled (h : Settled s separating c rest) :
    current s.withEof separating c = .ok (s.current rest, c) := by
  cases h with
  | atEnd last =>
      have hend : s.withEof[c.index]? = some (.eof s.finish) := last ▸ withEof_getElem?_length
      refine current_of_counts hend ?_
      rintro ⟨hkind, _⟩
      cases hkind
  | atToken here counts after => exact current_of_counts (withEof_getElem? here) counts

/-- Passing over line feeds that do not count, a cursor comes to the first token that does. -/
theorem current_of_stands (h : Stands s separating c rest) :
    ∃ i, c.index ≤ i ∧ current s.withEof separating c = .ok (s.current rest, ⟨i, c.depth⟩) ∧
      Settled s separating ⟨i, c.depth⟩ rest := by
  -- on the number of tokens after the cursor, each of which may be a line feed to pass over
  induction hn : s.tokens.length - c.index generalizing c with
  | zero =>
      have hlast : c.index = s.tokens.length := by
        have := h.bound
        omega
      have hrest : rest = [] := by
        rw [← h.rest, hlast, List.drop_length, remaining_nil]
      subst hrest
      have hsettled : Settled s separating c [] := .atEnd hlast
      exact ⟨c.index, Nat.le_refl _, current_of_settled hsettled, hsettled⟩
  | succ n ih =>
      have hlt : c.index < s.tokens.length := by omega
      have hhere : s.tokens[c.index]? = some s.tokens[c.index] := List.getElem?_eq_getElem hlt
      have hrest := h.rest
      rw [List.drop_eq_getElem_cons hlt, remaining_cons] at hrest
      split at hrest
      · rename_i hblank
        obtain ⟨i, hle, hcurrent, hsettled⟩ :=
          ih (c := ⟨c.index + 1, c.depth⟩) ⟨hlt, hrest⟩ (by
            change s.tokens.length - (c.index + 1) = n
            omega)
        refine ⟨i, Nat.le_of_succ_le hle, ?_, hsettled⟩
        rw [current_of_getElem? (withEof_getElem? hhere), if_pos hblank]
        exact hcurrent
      · rename_i hcounts
        subst hrest
        have hsettled : Settled s separating c _ := .atToken hhere hcounts ⟨hlt, rfl⟩
        exact ⟨c.index, Nat.le_refl _, current_of_settled hsettled, hsettled⟩

theorem advance_of_settled (h : Settled s separating c (tok :: rest)) :
    advance s.withEof separating c = .ok (tok, ⟨c.index + 1, c.depth⟩) := by
  have hcurrent := current_of_settled h
  cases h with
  | atToken here counts after =>
      have hlt : c.index < s.withEof.length - 1 := by
        have := (List.getElem?_eq_some_iff.1 here).1
        rw [length_withEof]
        omega
      rw [advance, hcurrent]
      exact congrArg (fun next => Except.ok (tok, next)) (if_pos hlt)

theorem advance_of_stands (h : Stands s separating c (tok :: rest)) :
    ∃ i, c.index < i ∧ advance s.withEof separating c = .ok (tok, ⟨i, c.depth⟩) ∧
      Stands s separating ⟨i, tok.openAfter c.depth⟩ rest := by
  obtain ⟨i, hle, hcurrent, hsettled⟩ := current_of_stands h
  have hadvance := advance_of_settled hsettled
  rw [advance, current_of_settled hsettled] at hadvance
  refine ⟨i + 1, Nat.lt_succ_of_le hle, ?_, ?_⟩
  · rw [advance, hcurrent]
    exact hadvance
  · cases hsettled with
    | atToken here counts after => exact after

/-! Looking ahead -/

theorem ahead_of_here {tokens : List Token} {i n : Nat} (h : tokens[i]? = some tok)
    (hhere : ¬(0 < n ∧ i < tokens.length - 1)) : ahead tokens i n = .ok tok := by
  rw [ahead]
  split
  · rename_i hnone
    rw [h] at hnone
    cases hnone
  · rename_i tok' hsome
    rw [h] at hsome
    cases hsome
    exact if_neg hhere

theorem ahead_zero {tokens : List Token} {i : Nat} (h : tokens[i]? = some tok) :
    ahead tokens i 0 = .ok tok :=
  ahead_of_here h fun hoffset => Nat.lt_irrefl 0 hoffset.1

theorem ahead_succ_of_lt {tokens : List Token} {i n : Nat} {next : Token}
    (h : tokens[i + 1]? = some next) :
    ahead tokens i (n + 1) = ahead tokens (i + 1) (if next.kind = .newline then n + 1 else n) := by
  have hlt : i + 1 < tokens.length := (List.getElem?_eq_some_iff.1 h).1
  rw [ahead]
  split
  · rename_i hnone
    rw [List.getElem?_eq_none_iff] at hnone
    omega
  · rw [if_pos ⟨Nat.succ_pos n, by omega⟩, h]
    rfl

theorem ahead_last {tokens : List Token} {i n : Nat} (h : tokens[i]? = some tok)
    (hlast : i = tokens.length - 1) : ahead tokens i n = .ok tok :=
  ahead_of_here h fun hoffset => Nat.ne_of_lt hoffset.2 hlast

/-- Looking ahead finds the tokens that are no line feeds, and the end after them. -/
theorem ahead_succ {i : Nat} (h : i ≤ s.tokens.length) (n : Nat) :
    ahead s.withEof i (n + 1) =
      .ok ((withoutNewlines (s.tokens.drop (i + 1)))[n]?.getD (.eof s.finish)) := by
  have hlength : s.withEof.length - 1 = s.tokens.length := by
    rw [length_withEof, Nat.add_sub_cancel]
  -- a line feed leaves the offset as it is, so the induction is on the tokens that are left
  induction hm : s.tokens.length - i generalizing i n with
  | zero =>
      obtain rfl : i = s.tokens.length := by omega
      rw [ahead_last withEof_getElem?_length hlength.symm, List.drop_of_length_le (by omega)]
      rfl
  | succ m ih =>
      by_cases hlt : i + 1 < s.tokens.length
      · have hnext : s.tokens[i + 1]? = some s.tokens[i + 1] := List.getElem?_eq_getElem hlt
        rw [ahead_succ_of_lt (withEof_getElem? hnext), List.drop_eq_getElem_cons hlt]
        by_cases hnewline : s.tokens[i + 1].kind = .newline
        · rw [if_pos hnewline, ih (Nat.le_of_lt hlt) n (by omega), withoutNewlines, withoutNewlines,
            List.filter_cons_of_neg (by simpa using hnewline)]
        · rw [if_neg hnewline, withoutNewlines, List.filter_cons_of_pos (by simpa using hnewline)]
          cases n with
          | zero => exact ahead_zero (withEof_getElem? hnext)
          | succ n =>
              rw [ih (Nat.le_of_lt hlt) n (by omega), List.getElem?_cons_succ]
              rfl
      · have hend : s.withEof[i + 1]? = some (.eof s.finish) := by
          rw [show i + 1 = s.tokens.length by omega]
          exact withEof_getElem?_length
        rw [ahead_succ_of_lt hend, List.drop_of_length_le (by omega)]
        exact ahead_last hend (by omega)

theorem Settled.index_le (h : Settled s separating c rest) : c.index ≤ s.tokens.length :=
  h.stands.bound

theorem peek_succ_of_settled (h : Settled s separating c (tok :: rest)) (n : Nat) :
    peek s.withEof separating (n + 1) c =
      .ok ((withoutNewlines rest)[n]?.getD (.eof s.finish), c) := by
  rw [peek, current_of_settled h]
  change (ahead s.withEof c.index (n + 1) >>= _) = _
  rw [ahead_succ h.index_le]
  cases h with
  | atToken here counts after =>
      rw [← after.rest, withoutNewlines_remaining]
      rfl

end Steps

end Cursor

end FlightCurve

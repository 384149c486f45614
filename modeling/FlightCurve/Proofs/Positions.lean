import Mathlib.Data.List.Pairwise
import FlightCurve.Outcome
import FlightCurve.Token.Lexer

/-!
Where tokens stand. Scanning is stated here as a relation, one constructor for each thing that may
stand at the front, so that facts of all tokens of a source are inductions over it.

The main facts are that every token has the place of its first character, that the end has the place
after the last one, and that these places follow one another in the order of the text, so that line
and column name one token at most.
-/

namespace FlightCurve

namespace Position

/-- `p` stands before `q`: on an earlier line, or on the same line further to the left. -/
def Before (p q : Position) : Prop := p.line < q.line ∨ p.line = q.line ∧ p.column < q.column

theorem Before.trans {p q r : Position} (hpq : p.Before q) (hqr : q.Before r) : p.Before r := by
  unfold Before at *
  omega

/-- Neither of two places on the same line and in the same column is before the other. -/
theorem not_before {p q : Position} (hline : p.line = q.line) (hcolumn : p.column = q.column) :
    ¬p.Before q := by
  unfold Before
  omega

theorem before_next (p : Position) (c : Char) : p.Before (p.next c) := by
  unfold next Before
  split
  · exact .inl (Nat.lt_succ_self _)
  · exact .inr ⟨rfl, Nat.lt_succ_self _⟩

theorem before_advance (p : Position) {cs : List Char} (h : cs ≠ []) : p.Before (p.advance cs) := by
  induction cs generalizing p with
  | nil => exact absurd rfl h
  | cons c cs ih =>
      rw [advance_cons]
      by_cases hcs : cs = []
      · subst hcs
        exact p.before_next c
      · exact (p.before_next c).trans (ih _ hcs)

/-- The line is counted by the line feeds passed. -/
theorem line_advance (p : Position) (cs : List Char) :
    (p.advance cs).line = p.line + cs.count '\n' := by
  induction cs generalizing p with
  | nil => rfl
  | cons c cs ih =>
      rw [advance_cons, ih, List.count_cons]
      by_cases hc : c = '\n'
      · simp [next, hc]
        omega
      · simp [next, hc]

/-- The offset counts the characters passed. -/
theorem offset_start_advance (cs : List Char) : (start.advance cs).offset = cs.length :=
  (offset_advance start cs).trans (Nat.zero_add _)

/-- The place after the first characters of a text. -/
def StandsIn (p : Position) (source : String) : Prop :=
  ∃ before after, source.toList = before ++ after ∧ p = start.advance before

/-- A place is on the first line exactly if no line feed stands before it. -/
theorem StandsIn.line_eq_one_iff {p : Position} {source : String} (h : p.StandsIn source) :
    p.line = 1 ↔ '\n' ∉ source.toList.take p.offset := by
  obtain ⟨before, after, hsource, rfl⟩ := h
  have htake : source.toList.take (start.advance before).offset = before := by
    rw [offset_start_advance, hsource, List.take_left]
  rw [htake, line_advance, ← List.count_eq_zero]
  change 1 + _ = 1 ↔ _
  omega

end Position

/-! Scanning as a relation -/

namespace Lexer

/-- The characters `cs`, the first of which stands at `p`, are cut into the tokens of a scan. -/
inductive Scans : Position → List Char → Scanned → Prop
  | nil (p : Position) : Scans p [] ⟨[], p⟩
  | blank {p : Position} {c : Char} {rest : List Char} {s : Scanned} (blank : isBlank c = true)
      (after : Scans (p.next c) rest s) : Scans p (c :: rest) s
  | token {p : Position} {c : Char} {rest : List Char} {s : Scanned} {kind : Kind} {n : Nat}
      (blank : isBlank c = false) (longest : tokenAt? (c :: rest) = some (kind, n))
      (after : Scans (p.advance ((c :: rest).take n)) ((c :: rest).drop n) s) :
      Scans p (c :: rest)
        ⟨⟨kind, String.ofList ((c :: rest).take n), p⟩ :: s.tokens, s.finish⟩

theorem scanFrom_nil (p : Position) : scanFrom p [] = .ok ⟨[], p⟩ := by
  rw [scanFrom]

theorem scanFrom_blank (p : Position) {c : Char} (rest : List Char) (h : isBlank c = true) :
    scanFrom p (c :: rest) = scanFrom (p.next c) rest := by
  rw [scanFrom, if_pos h]

theorem scanFrom_none (p : Position) {c : Char} {rest : List Char} (hblank : isBlank c = false)
    (h : tokenAt? (c :: rest) = none) : scanFrom p (c :: rest) = .error ⟨c, p⟩ := by
  rw [scanFrom, if_neg (by simp [hblank])]
  split
  · rfl
  · rename_i kind n hat
    rw [h] at hat
    cases hat

theorem scanFrom_some (p : Position) {c : Char} {rest : List Char} {kind : Kind} {n : Nat}
    (hblank : isBlank c = false) (h : tokenAt? (c :: rest) = some (kind, n)) :
    scanFrom p (c :: rest) = (do
      let after ← scanFrom (p.advance ((c :: rest).take n)) ((c :: rest).drop n)
      .ok ⟨⟨kind, String.ofList ((c :: rest).take n), p⟩ :: after.tokens, after.finish⟩) := by
  rw [scanFrom, if_neg (by simp [hblank])]
  split
  · rename_i hat
    rw [h] at hat
    cases hat
  · rename_i kind' n' hat
    rw [h] at hat
    cases hat
    rfl

/-- Characters are cut into a scan, or one of them begins no token. -/
theorem scanFrom_cases (p : Position) (cs : List Char) :
    (∃ s, scanFrom p cs = .ok s ∧ Scans p cs s) ∨
      ∃ c before after, scanFrom p cs = .error ⟨c, p.advance before⟩ ∧
        cs = before ++ c :: after := by
  -- a token takes one character at least, so fewer are left to the ones after it
  induction hlength : cs.length using Nat.strongRecOn generalizing p cs with
  | _ n ih =>
      cases cs with
      | nil => exact .inl ⟨_, scanFrom_nil p, .nil p⟩
      | cons c rest =>
          rw [List.length_cons] at hlength
          cases hblank : isBlank c with
          | true =>
              rw [scanFrom_blank p rest hblank]
              rcases ih rest.length (by omega) (p.next c) rest rfl with
                ⟨s, hs, hscans⟩ | ⟨d, before, after, hd, rfl⟩
              · exact .inl ⟨s, hs, .blank hblank hscans⟩
              · exact .inr ⟨d, c :: before, after, hd, rfl⟩
          | false =>
              cases hat : tokenAt? (c :: rest) with
              | none => exact .inr ⟨c, [], rest, scanFrom_none p hblank hat, rfl⟩
              | some found =>
                  obtain ⟨kind, k⟩ := found
                  have hlt : ((c :: rest).drop k).length < n := by
                    have := tokenAt?_pos hat
                    rw [List.length_drop, List.length_cons]
                    omega
                  rw [scanFrom_some p hblank hat]
                  rcases ih _ hlt (p.advance ((c :: rest).take k)) _ rfl with
                    ⟨s, hs, hscans⟩ | ⟨d, before, after, hd, hrest⟩
                  · rw [hs]
                    exact .inl ⟨_, rfl, .token hblank hat hscans⟩
                  · rw [hd]
                    refine .inr ⟨d, (c :: rest).take k ++ before, after, ?_, ?_⟩
                    · rw [Position.advance_append]
                      rfl
                    · rw [List.append_assoc, ← hrest, List.take_append_drop]

theorem scans_of_scanFrom {p : Position} {cs : List Char} {s : Scanned}
    (h : scanFrom p cs = .ok s) : Scans p cs s := by
  rcases scanFrom_cases p cs with ⟨s', hs', hscans⟩ | ⟨_, _, _, herror, _⟩
  · rw [h] at hs'
    cases hs'
    exact hscans
  · rw [h] at herror
    cases herror

/-! Places -/

namespace Scans

variable {p : Position} {cs : List Char} {s : Scanned}

/-- The text of each token stands where the token does. -/
theorem text_eq (h : Scans p cs s) :
    ∀ tok ∈ s.withEof, ∃ before after, cs = before ++ (tok.text.toList ++ after) ∧
      tok.position = p.advance before := by
  induction h with
  | nil p =>
      intro tok htok
      obtain rfl := List.mem_singleton.1 htok
      exact ⟨[], [], rfl, rfl⟩
  | @blank p c rest s _ _ ih =>
      intro tok htok
      obtain ⟨before, after, hrest, hposition⟩ := ih tok htok
      exact ⟨c :: before, after, by rw [hrest, List.cons_append], hposition⟩
  | @token p c rest s kind n _ _ _ ih =>
      intro tok htok
      rcases List.mem_cons.1 htok with rfl | htok
      · refine ⟨[], (c :: rest).drop n, ?_, rfl⟩
        rw [String.toList_ofList, List.nil_append, List.take_append_drop]
      · obtain ⟨before, after, hrest, hposition⟩ := ih tok htok
        refine ⟨(c :: rest).take n ++ before, after, ?_, ?_⟩
        · rw [List.append_assoc, ← hrest, List.take_append_drop]
        · rw [hposition, Position.advance_append]

/-- The tokens and the end stand one before the other, and none before the first character. -/
theorem before (h : Scans p cs s) :
    (∀ tok ∈ s.withEof, tok.position = p ∨ p.Before tok.position) ∧
      s.withEof.Pairwise fun a b => a.position.Before b.position := by
  induction h with
  | nil p =>
      refine ⟨fun tok htok => ?_, List.pairwise_singleton _ _⟩
      obtain rfl := List.mem_singleton.1 htok
      exact .inl rfl
  | @blank p c rest s _ _ ih =>
      refine ⟨fun tok htok => .inr ?_, ih.2⟩
      rcases ih.1 tok htok with h | h
      · rw [h]
        exact p.before_next c
      · exact (p.before_next c).trans h
  | @token p c rest s kind n _ longest _ ih =>
      have hne : (c :: rest).take n ≠ [] := by
        have := tokenAt?_pos longest
        simp [List.take_eq_nil_iff]
        omega
      have hrest : ∀ tok ∈ s.withEof, p.Before tok.position := by
        intro tok htok
        rcases ih.1 tok htok with h | h
        · rw [h]
          exact p.before_advance hne
        · exact (p.before_advance hne).trans h
      constructor
      · intro tok htok
        rcases List.mem_cons.1 htok with rfl | htok
        · exact .inl rfl
        · exact .inr (hrest tok htok)
      · exact List.pairwise_cons.2 ⟨hrest, ih.2⟩

end Scans

end Lexer

/-! Sources -/

section Sources

variable {source : String} {s : Scanned}

/-- The text of a token stands in the source where the token does. -/
theorem exists_text_of_scan (h : scan source = .ok s) {tok : Token} (htok : tok ∈ s.withEof) :
    ∃ before after, source.toList = before ++ (tok.text.toList ++ after) ∧
      tok.position = Position.start.advance before :=
  (Lexer.scans_of_scanFrom h).text_eq tok htok

theorem standsIn_of_scan (h : scan source = .ok s) {tok : Token} (htok : tok ∈ s.withEof) :
    tok.position.StandsIn source := by
  obtain ⟨before, after, hsource, hposition⟩ := exists_text_of_scan h htok
  exact ⟨before, _, hsource, hposition⟩

/-- A character that begins no token is reported at its own place. -/
theorem standsIn_of_scan_error {c : Placed Char} (h : scan source = .error c) :
    c.position.StandsIn source := by
  rcases Lexer.scanFrom_cases .start source.toList with ⟨s, hs, _⟩ | ⟨d, before, after, hd, hcs⟩
  · rw [scan, hs] at h
    cases h
  · rw [scan, hd] at h
    cases h
    exact ⟨before, d :: after, hcs, rfl⟩

theorem pairwise_before_of_scan (h : scan source = .ok s) :
    s.withEof.Pairwise fun a b => a.position.Before b.position :=
  (Lexer.scans_of_scanFrom h).before.2

theorem nodup_of_scan (h : scan source = .ok s) : s.withEof.Nodup := by
  refine (pairwise_before_of_scan h).imp ?_
  rintro a _ hbefore rfl
  exact Position.not_before rfl rfl hbefore

theorem nodup_position_of_scan (h : scan source = .ok s) :
    (s.tokens.map Token.position).Nodup := by
  have hordered := (pairwise_before_of_scan h).sublist (List.sublist_append_left s.tokens _)
  refine List.pairwise_map.2 (hordered.imp ?_)
  intro a b hbefore heq
  exact Position.not_before (congrArg _ heq) (congrArg _ heq) hbefore

/-- Line and column name one token at most. -/
theorem eq_of_line_column (h : scan source = .ok s) {a b : Token} (ha : a ∈ s.withEof)
    (hb : b ∈ s.withEof) (hline : a.position.line = b.position.line)
    (hcolumn : a.position.column = b.position.column) : a = b := by
  have hdistinct : s.withEof.Pairwise fun a b =>
      ¬(a.position.line = b.position.line ∧ a.position.column = b.position.column) := by
    refine (pairwise_before_of_scan h).imp ?_
    rintro a b hbefore ⟨hline, hcolumn⟩
    exact Position.not_before hline hcolumn hbefore
  have hsymm : Std.Symm fun a b : Token =>
      ¬(a.position.line = b.position.line ∧ a.position.column = b.position.column) :=
    ⟨fun _ _ hab hba => hab ⟨hba.1.symm, hba.2.symm⟩⟩
  by_contra hne
  exact hdistinct.forall ha hb hne ⟨hline, hcolumn⟩

end Sources

end FlightCurve

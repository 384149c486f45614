import FlightCurve.Proofs.LongestMatch
import FlightCurve.Proofs.Renaming

/-!
Blanks between tokens. A token has no blank in it, so it ends where it did whatever blank comes to
stand behind it, and the tokens of a source remain when the blanks between them are others.

The main statement is that the texts of the tokens of a source, with single spaces between them, are
cut into the same tokens again, and that blanks between two tokens may be exchanged for other ones,
or put there if there were none, without a change of tokens or trees but for their places.
-/

namespace FlightCurve

/-! What may change -/

/-- The characters from `i` up to `j` stand between tokens: each token ends before them or begins
behind them. -/
def Scanned.IsGap (s : Scanned) (i j : Nat) : Prop :=
  ∀ tok ∈ s.tokens, tok.position.offset + tok.text.length ≤ i ∨ j ≤ tok.position.offset

instance (s : Scanned) (i j : Nat) : Decidable (s.IsGap i j) :=
  inferInstanceAs (Decidable (∀ tok ∈ s.tokens, _))

def Assignment.unplaced (a : Assignment) : Assignment := ⟨a.target.unplaced, a.value.unplaced⟩

/-- Two sources are read in the same way, but for places: as a curve expression and as a where
clause, both are accepted, with the same trees, or neither is. -/
structure ReadAlike (source source' : String) : Prop where
  expr : ∀ axis, (parseExpr source' axis).toOption.map Tree.unplaced =
    (parseExpr source axis).toOption.map Tree.unplaced
  clause : (parseAssignments source').toOption.map (·.map Assignment.unplaced) =
    (parseAssignments source).toOption.map (·.map Assignment.unplaced)

namespace Lexer

/-! Blanks behind tokens -/

theorem no_part_of_blank : ∀ c ∈ blanks,
    isNumberPart c = false ∧ isIdentRest c = false ∧ c ≠ '/' ∧ symbol? c = none := by
  intro c hc
  simp only [blanks, List.mem_cons, List.not_mem_nil, or_false] at hc
  rcases hc with rfl | rfl | rfl | rfl | rfl <;> exact ⟨rfl, rfl, by decide, rfl⟩

/-- No token has a blank in it. -/
theorem not_mem_token_of_blank {c : Char} (hc : c ∈ blanks) {cs : List Char} {kind : Kind} {n : Nat}
    (h : tokenAt? cs = some (kind, n)) : c ∉ cs.take n := by
  intro hmem
  obtain ⟨hnumber, hident, hslash, hsymbol⟩ := no_part_of_blank c hc
  unfold tokenAt? at h
  split at h
  · cases h
    rw [forall_mem_take_numberLength cs c hmem] at hnumber
    cases hnumber
  · split at h
    · cases h
      rw [forall_mem_take_identLength cs c hmem] at hident
      cases hident
    · unfold symbolAt? at h
      split at h
      · cases h
        simp [hslash] at hmem
      · rw [Option.map_eq_some_iff] at h
        obtain ⟨symbol, hother, h⟩ := h
        cases h
        rw [List.take_succ_cons, List.take_zero, List.mem_singleton] at hmem
        rw [← hmem, hsymbol] at hother
        cases hother
      · cases h

/-- A blank that comes to stand behind some characters is no part of the token at their front. -/
theorem tokenAt?_append_blank {cs : List Char} {kind : Kind} {n : Nat}
    (h : tokenAt? cs = some (kind, n)) {b : Char} (hb : b ∈ blanks) (rest : List Char) :
    tokenAt? (cs ++ b :: rest) = some (kind, n) := by
  have hn := tokenAt?_le_length h
  obtain ⟨kind', m, hat, hle, hkind⟩ :=
    tokenAt?_of_derives (derives_of_tokenAt? h) (cs.drop n ++ b :: rest)
  rw [← List.append_assoc, List.take_append_drop] at hat
  rw [List.length_take_of_le hn] at hle hkind
  by_cases hm : m ≤ cs.length
  · have hderives := derives_of_tokenAt? hat
    rw [List.take_append_of_le_length hm] at hderives
    obtain ⟨hmax, _⟩ := measured_of_tokenAt? h hderives (List.take_prefix m cs)
    rw [List.length_take_of_le hm] at hmax
    obtain rfl := Nat.le_antisymm hle hmax
    rw [hat, hkind rfl]
  · -- a longer token would have the blank in it
    have hmem : b ∈ (cs ++ b :: rest).take m := by
      obtain ⟨k, hk⟩ : ∃ k, m - cs.length = k + 1 := ⟨m - cs.length - 1, by omega⟩
      rw [List.take_append, hk, List.take_succ_cons]
      exact List.mem_append_right _ List.mem_cons_self
    exact absurd hmem (not_mem_token_of_blank hb hat)

/-- A token that ends within some characters is found without the ones behind them. -/
theorem tokenAt?_of_append {cs rest : List Char} {kind : Kind} {n : Nat}
    (h : tokenAt? (cs ++ rest) = some (kind, n)) (hn : n ≤ cs.length) :
    tokenAt? cs = some (kind, n) := by
  have hlongest := isLongest_of_tokenAt? h
  rw [List.take_append_of_le_length hn, List.drop_append_of_le_length hn] at hlongest
  have hat := (hlongest.of_prefix (List.prefix_append (cs.drop n) rest)).tokenAt?_eq
  rwa [List.take_append_drop, List.length_take_of_le hn] at hat

/-! Scanning -/

theorem scanFrom_blanks {run : List Char} (h : ∀ c ∈ run, c ∈ blanks) (p : Position)
    (rest : List Char) : scanFrom p (run ++ rest) = scanFrom (p.advance run) rest := by
  induction run generalizing p with
  | nil => rfl
  | cons c run ih =>
      rw [List.forall_mem_cons] at h
      rw [List.cons_append, scanFrom_blank p _ (isBlank_iff.2 h.1), ih h.2, Position.advance_cons]

theorem scanFrom_token {cs : List Char} {kind : Kind} {n : Nat}
    (h : tokenAt? cs = some (kind, n)) (p : Position) :
    scanFrom p cs = (do
      let after ← scanFrom (p.advance (cs.take n)) (cs.drop n)
      .ok ⟨⟨kind, String.ofList (cs.take n), p⟩ :: after.tokens, after.finish⟩) := by
  obtain ⟨c, rest, rfl⟩ :=
    List.exists_cons_of_length_pos (Nat.lt_of_lt_of_le (tokenAt?_pos h) (tokenAt?_le_length h))
  exact scanFrom_some p (isBlank_of_tokenAt? h) h

namespace Scans

variable {p : Position} {cs before run after : List Char} {s : Scanned}

/-- Where a text stands changes nothing but the places of its tokens. -/
theorem scanFrom_from (h : Scans p cs s) (p' : Position) :
    ∃ s', scanFrom p' cs = .ok s' ∧ s'.tokens.map Token.lexeme = s.tokens.map Token.lexeme := by
  induction h generalizing p' with
  | nil p => exact ⟨_, scanFrom_nil p', rfl⟩
  | @blank p c rest s hblank _ ih =>
      obtain ⟨s', hs', hlexemes⟩ := ih (p'.next c)
      exact ⟨s', (scanFrom_blank p' rest hblank).trans hs', hlexemes⟩
  | @token p c rest s kind n hblank longest _ ih =>
      obtain ⟨s', hs', hlexemes⟩ := ih (p'.advance ((c :: rest).take n))
      rw [scanFrom_some p' hblank longest, hs']
      exact ⟨_, rfl, congrArg ((kind, _) :: ·) hlexemes⟩

/-- A gap at the front is skipped. -/
theorem exists_after_gap (h : Scans p (run ++ after) s)
    (hgap : s.IsGap p.offset (p.offset + run.length)) : ∃ q, Scans q after s := by
  induction run generalizing p with
  | nil => exact ⟨p, h⟩
  | cons c run ih =>
      cases h with
      | blank _ h =>
          refine ih h fun tok htok => ?_
          have := hgap tok htok
          rw [List.length_cons] at this
          rw [Position.offset_next]
          omega
      | @token _ _ _ s kind n _ longest _ =>
          have hpos := tokenAt?_pos longest
          have hle := tokenAt?_le_length longest
          have hfirst := hgap _ List.mem_cons_self
          simp only [String.length_ofList, List.length_take_of_le hle, List.length_cons] at hfirst
          omega

theorem scanFrom_respaced_front (h : Scans p (run ++ after) s)
    (hgap : s.IsGap p.offset (p.offset + run.length)) {run' : List Char}
    (hblank : ∀ c ∈ run', c ∈ blanks) (p' : Position) :
    ∃ s', scanFrom p' (run' ++ after) = .ok s' ∧
      s'.tokens.map Token.lexeme = s.tokens.map Token.lexeme := by
  obtain ⟨q, hafter⟩ := h.exists_after_gap hgap
  obtain ⟨s', hs', hlexemes⟩ := hafter.scanFrom_from (p'.advance run')
  exact ⟨s', (scanFrom_blanks hblank p' after).trans hs', hlexemes⟩

/-- Other blanks in a gap, one at least, leave the tokens what they are. -/
theorem scanFrom_respaced (h : Scans p cs s) (hcs : cs = before ++ (run ++ after))
    (hgap : s.IsGap (p.offset + before.length) (p.offset + before.length + run.length))
    {run' : List Char} (hne : run' ≠ []) (hblank : ∀ c ∈ run', c ∈ blanks) (p' : Position) :
    ∃ s', scanFrom p' (before ++ (run' ++ after)) = .ok s' ∧
      s'.tokens.map Token.lexeme = s.tokens.map Token.lexeme := by
  obtain ⟨b, more, rfl⟩ := List.exists_cons_of_ne_nil hne
  induction h generalizing before p' with
  | nil p =>
      obtain ⟨rfl, hrest⟩ := List.append_eq_nil_iff.1 hcs.symm
      exact scanFrom_respaced_front (hrest ▸ .nil p) hgap hblank p'
  | @blank p c rest s hc hrest ih =>
      cases before with
      | nil => exact scanFrom_respaced_front (hcs ▸ .blank hc hrest) hgap hblank p'
      | cons d before =>
          obtain ⟨rfl, rfl⟩ := List.cons.inj hcs
          have hgap' : s.IsGap ((p.next c).offset + before.length)
              ((p.next c).offset + before.length + run.length) := by
            rw [Position.offset_next, Nat.add_assoc p.offset, Nat.add_comm 1]
            exact hgap
          obtain ⟨s', hs', hlexemes⟩ := ih rfl hgap' (p'.next c)
          exact ⟨s', (scanFrom_blank p' _ hc).trans hs', hlexemes⟩
  | @token p c rest s kind n hc longest hrest ih =>
      have hfront := Scans.token hc longest hrest
      generalize c :: rest = cs at hcs longest hrest hgap ih hfront ⊢
      subst hcs
      by_cases hbefore : before = []
      · subst hbefore
        exact @scanFrom_respaced_front p run after _ hfront hgap _ hblank p'
      -- the gap is behind the first character, so the token ends before it
      have hpos := List.length_pos_iff.2 hbefore
      have hlength := tokenAt?_le_length longest
      have hn : n ≤ before.length := by
        have hfirst := hgap _ List.mem_cons_self
        simp only [String.length_ofList, List.length_take_of_le hlength] at hfirst
        omega
      have hat := tokenAt?_append_blank (tokenAt?_of_append longest hn)
        (hblank b List.mem_cons_self) (more ++ after)
      rw [List.take_append_of_le_length hn] at hgap ih ⊢
      rw [List.drop_append_of_le_length hn] at ih
      have hgap' : s.IsGap ((p.advance (before.take n)).offset + (before.drop n).length)
          ((p.advance (before.take n)).offset + (before.drop n).length + run.length) := by
        rw [Position.offset_advance, List.length_take_of_le hn, List.length_drop,
          Nat.add_assoc p.offset, Nat.add_sub_cancel' hn]
        exact fun tok htok => hgap tok (List.mem_cons_of_mem _ htok)
      obtain ⟨s', hs', hlexemes⟩ := ih rfl hgap' (p'.advance (before.take n))
      rw [List.cons_append, scanFrom_token hat, List.take_append_of_le_length hn,
        List.drop_append_of_le_length hn, ← List.cons_append, hs']
      exact ⟨_, rfl, congrArg ((kind, _) :: ·) hlexemes⟩

end Scans

end Lexer

/-! Trees -/

/-- Only the places of a source are new. -/
def Renaming.moving (place : Position → Position) : Renaming := ⟨[], id, place⟩

theorem Renaming.unplaced_word_moving (place : Position → Position) (w : Placed String) :
    ((moving place).word w).unplaced = w.unplaced := rfl

mutual

theorem Tree.unplaced_moving (place : Position → Position) {r : Rule} (tree : Tree r) :
    (tree.renamed (.moving place)).unplaced = tree.unplaced := by
  match tree with
  | .chain first rest =>
      rw [Tree.renamed, Tree.unplaced, Tree.unplaced, first.unplaced_moving, rest.unplaced_moving]
  | .signed negated operand =>
      rw [Tree.renamed, Tree.unplaced, Tree.unplaced, operand.unplaced_moving]
  | .callOne name argument =>
      rw [Tree.renamed, Tree.unplaced, Tree.unplaced, argument.unplaced_moving,
        Renaming.unplaced_word_moving]
  | .callTwo name first second =>
      rw [Tree.renamed, Tree.unplaced, Tree.unplaced, first.unplaced_moving,
        second.unplaced_moving, Renaming.unplaced_word_moving]
  | .plain primary => rw [Tree.renamed, Tree.unplaced, Tree.unplaced, primary.unplaced_moving]
  | .group inner => rw [Tree.renamed, Tree.unplaced, Tree.unplaced, inner.unplaced_moving]
  | .variable name =>
      rw [Tree.renamed, Tree.unplaced, Tree.unplaced, Renaming.unplaced_word_moving]
  | .number literal => rfl

theorem Tail.unplaced_moving (place : Position → Position) {c : Chain} (tail : Tail c) :
    (tail.renamed (.moving place)).unplaced = tail.unplaced := by
  match tail with
  | .done => rfl
  | .step op operand rest =>
      rw [Tail.renamed, Tail.unplaced, Tail.unplaced, operand.unplaced_moving,
        rest.unplaced_moving]
      rfl

end

theorem Assignment.unplaced_moving (place : Position → Position) (a : Assignment) :
    (a.renamed (.moving place)).unplaced = a.unplaced := by
  rw [renamed, unplaced, a.value.unplaced_moving]
  rfl

/-! Sources -/

section Sources

variable {source source' : String} {s s' : Scanned}

/-- Tokens that say the same are the same tokens at other places. -/
theorem exists_moving (h : scan source = .ok s)
    (hlexemes : s'.tokens.map Token.lexeme = s.tokens.map Token.lexeme) :
    ∃ place, s'.tokens = s.tokens.map (Renaming.moving place).token := by
  obtain ⟨place, hplace⟩ := exists_place (nodup_position_of_scan h) hlexemes
  refine ⟨place, hplace.trans (List.map_congr_left fun tok _ => ?_)⟩
  rw [Renaming.token, Renaming.text_of_not_mem _ List.not_mem_nil]
  rfl

theorem readAlike_of_lexemes (h : scan source = .ok s) (h' : scan source' = .ok s')
    (hlexemes : s'.tokens.map Token.lexeme = s.tokens.map Token.lexeme) :
    ReadAlike source source' := by
  obtain ⟨place, htokens⟩ := exists_moving h hlexemes
  obtain ⟨back, htokens'⟩ := exists_moving h' hlexemes.symm
  constructor
  · intro axis
    refine Outcome.map_toOption_eq (fun e he => ?_) fun e he => ?_
    · exact ⟨_, parseExpr_renamed _ h h' htokens he (List.forall_mem_nil _),
        e.unplaced_moving place⟩
    · exact ⟨_, parseExpr_renamed _ h' h htokens' he (List.forall_mem_nil _)⟩
  · refine Outcome.map_toOption_eq (fun as has => ?_) fun as has => ?_
    · refine ⟨_, parseAssignments_renamed _ h h' htokens has (List.forall_mem_nil _), ?_⟩
      rw [List.map_map]
      exact List.map_congr_left fun a _ => a.unplaced_moving place
    · exact ⟨_, parseAssignments_renamed _ h' h htokens' has (List.forall_mem_nil _)⟩

/-- A run of blanks is a gap, since no token has a blank in it. -/
theorem isGap_of_blanks (h : scan source = .ok s) {before run after : List Char}
    (hsource : source.toList = before ++ (run ++ after)) (hne : run ≠ [])
    (hblank : ∀ c ∈ run, c ∈ Lexer.blanks) :
    s.IsGap before.length (before.length + run.length) := by
  intro tok htok
  by_contra hmeets
  have hpos := List.length_pos_iff.2 hne
  have htext := (Lexer.scans_of_scanFrom h).text_length_pos tok htok
  -- the first place that the run and the token share
  obtain ⟨i, hi, hcovers⟩ : ∃ i, i < run.length ∧ tok.Covers (before.length + i) := by
    refine ⟨tok.position.offset - before.length, ?_, ?_⟩
    · omega
    · rw [Token.Covers]
      omega
  have hc : source.toList[before.length + i]? = some run[i] := by
    rw [hsource, List.getElem?_append_right (Nat.le_add_right _ _), Nat.add_sub_cancel_left,
      List.getElem?_append_left hi, List.getElem?_eq_getElem hi]
  have hclean : ∀ tok ∈ s.tokens, ∀ c ∈ Lexer.blanks, c ∉ tok.text.toList := by
    refine Lexer.forall_mem_scanFrom (fun cs kind n p hat c hc => ?_) _ _ h
    rw [String.toList_ofList]
    exact Lexer.not_mem_token_of_blank hc hat
  exact hclean tok htok _ (hblank _ (List.getElem_mem hi))
    (mem_text_of_covers h (List.mem_append_left _ htok) hc hcovers)

/-- The texts of the tokens of a source, with single spaces between them, are cut into tokens of the
same kinds and texts. Runs of blanks in the source stand between tokens, and whatever stands between
two tokens, nothing or a run of blanks, may be exchanged for blanks, one at least: the new source
has tokens of the same kinds and texts, and is read in the same way but for places. -/
theorem scan_respaced (h : scan source = .ok s) :
    (∃ s', scan (" ".intercalate (s.tokens.map Token.text)) = .ok s' ∧
      s'.tokens.map Token.lexeme = s.tokens.map Token.lexeme) ∧
    (∀ before run after, source.toList = before ++ (run ++ after) → run ≠ [] →
      (∀ c ∈ run, c ∈ [' ', '\t', '\r', '\x0c', '\x0b']) →
      s.IsGap before.length (before.length + run.length)) ∧
    ∀ before run after run', source.toList = before ++ (run ++ after) →
      s.IsGap before.length (before.length + run.length) → run' ≠ [] →
      (∀ c ∈ run', c ∈ [' ', '\t', '\r', '\x0c', '\x0b']) →
      ∃ s', scan (String.ofList (before ++ (run' ++ after))) = .ok s' ∧
        s'.tokens.map Token.lexeme = s.tokens.map Token.lexeme ∧
        ReadAlike source (String.ofList (before ++ (run' ++ after))) := by
  refine ⟨?_, fun before run after => isGap_of_blanks h, ?_⟩
  · have hlexemes : ∀ l ∈ s.tokens.map Token.lexeme, IsLexeme l := by
      rw [List.forall_mem_map]
      exact fun tok htok => Token.isWritten_iff.1 (isWritten_of_scan h tok htok)
    obtain ⟨s', hs', hsame⟩ := scanFrom_intercalate hlexemes .start
    refine ⟨s', ?_, hsame⟩
    rw [scan, String.toList_intercalate, List.map_map]
    rw [List.map_map] at hs'
    exact hs'
  · intro before run after run' hsource hgap hne hblank
    have hscans := Lexer.scans_of_scanFrom h
    rw [← Nat.zero_add before.length] at hgap
    obtain ⟨s', hs', hlexemes⟩ := hscans.scanFrom_respaced hsource hgap hne hblank .start
    have hscan : scan (String.ofList (before ++ (run' ++ after))) = .ok s' := by
      rw [scan, String.toList_ofList, hs']
    exact ⟨s', hscan, hlexemes, readAlike_of_lexemes h hscan hlexemes⟩

theorem scan_respaced_slashes :
    ∃ s s', scan "1.\t//t" = .ok s ∧ scan "1.\x0c //t" = .ok s' ∧
      s'.tokens.map Token.lexeme = s.tokens.map Token.lexeme ∧
      ReadAlike "1.\t//t" "1.\x0c //t" := by
  have h : scan "1.\t//t" = .ok ⟨[⟨.number, "1.", ⟨0, 1, 1⟩⟩, ⟨.doubleSlash, "//", ⟨3, 1, 4⟩⟩,
      ⟨.ident, "t", ⟨5, 1, 6⟩⟩], ⟨6, 1, 7⟩⟩ := by
    decide +kernel
  obtain ⟨s', hs', hlexemes, hread⟩ :=
    (scan_respaced h).2.2 ['1', '.'] ['\t'] ['/', '/', 't'] ['\x0c', ' '] (by decide) (by decide)
      (by decide) (by simp)
  exact ⟨_, s', h, hs', hlexemes, hread⟩

end Sources

end FlightCurve

import FlightCurve.Proofs.Lines
import FlightCurve.Proofs.Writing

/-!
Scanning loses nothing. The tokens of a source and the blanks between them, put together, are the
source; each token covers the characters that its text names, and its line and column lead back to
them.

All of this is read off the relation of scanning, where a step either passes a blank or takes the
characters of one token. That a line feed is never part of a longer token is the one fact that needs
the shape of the tokens.
-/

namespace FlightCurve

namespace Lexer

/-! A line feed is a token of its own -/

/-- A character of a number literal. -/
def isNumberPart (c : Char) : Bool := c.isDigit || c ∈ ['.', 'e', 'E', '+', '-']

theorem take_length_takeWhile (p : Char → Bool) (cs : List Char) :
    cs.take (cs.takeWhile p).length = cs.takeWhile p :=
  (List.prefix_iff_eq_take.1 (List.takeWhile_prefix p)).symm

theorem forall_mem_take_digitRun (cs : List Char) :
    ∀ c ∈ cs.take (digitRun cs), isNumberPart c = true := by
  intro c hc
  rw [digitRun, take_length_takeWhile] at hc
  simp [isNumberPart, List.mem_takeWhile_imp hc]

theorem forall_mem_take_mantissaLength (cs : List Char) :
    ∀ c ∈ cs.take (mantissaLength cs), isNumberPart c = true := by
  unfold mantissaLength
  split
  · rename_i fraction hdrop
    split
    · intro c hc
      cases hc
    · rw [List.take_add, List.take_add, hdrop, List.take_succ_cons, List.take_zero]
      have htail : (cs.drop (digitRun cs + 1)) = fraction := by
        rw [← List.drop_drop, hdrop, List.drop_succ_cons, List.drop_zero]
      rw [htail]
      simp only [List.forall_mem_append, List.forall_mem_singleton]
      exact ⟨⟨forall_mem_take_digitRun cs, rfl⟩, forall_mem_take_digitRun fraction⟩
  · exact forall_mem_take_digitRun cs

theorem forall_mem_take_signLength (cs : List Char) :
    ∀ c ∈ cs.take (signLength cs), isNumberPart c = true := by
  unfold signLength
  split <;> simp [isNumberPart]

theorem forall_mem_take_exponentLength (cs : List Char) :
    ∀ c ∈ cs.take (exponentLength cs), isNumberPart c = true := by
  unfold exponentLength
  split
  · rename_i c rest
    split
    · rename_i hmark
      split
      · intro c hc
        cases hc
      · rw [Nat.add_assoc, Nat.add_comm 1, List.take_succ_cons, List.take_add,
          List.forall_mem_cons, List.forall_mem_append]
        refine ⟨?_, forall_mem_take_signLength rest, forall_mem_take_digitRun _⟩
        rcases hmark with rfl | rfl <;> rfl
    · intro c hc
      cases hc
  · intro c hc
    cases hc

theorem forall_mem_take_numberLength (cs : List Char) :
    ∀ c ∈ cs.take (numberLength cs), isNumberPart c = true := by
  unfold numberLength
  split
  · intro c hc
    cases hc
  · rw [List.take_add, List.forall_mem_append]
    exact ⟨forall_mem_take_mantissaLength cs, forall_mem_take_exponentLength _⟩

theorem forall_mem_take_identLength (cs : List Char) :
    ∀ c ∈ cs.take (identLength cs), isIdentRest c = true := by
  unfold identLength
  split
  · rename_i c rest
    split
    · rename_i hletter
      rw [Nat.add_comm, List.take_succ_cons, take_length_takeWhile, List.forall_mem_cons]
      exact ⟨by simp [isIdentRest, Char.isAlphanum, hletter], fun _ hc => List.mem_takeWhile_imp hc⟩
    · intro c hc
      cases hc
  · intro c hc
    cases hc

/-- A line feed stands in no token but its own. -/
theorem eq_newline_of_mem {cs : List Char} {kind : Kind} {n : Nat}
    (h : tokenAt? cs = some (kind, n)) (hfeed : '\n' ∈ cs.take n) : kind = .newline := by
  unfold tokenAt? at h
  split at h
  · cases h
    exact absurd (forall_mem_take_numberLength cs _ hfeed) (by decide)
  · split at h
    · cases h
      exact absurd (forall_mem_take_identLength cs _ hfeed) (by decide)
    · unfold symbolAt? at h
      split at h
      · cases h
        simp at hfeed
      · rename_i c rest _
        rw [Option.map_eq_some_iff] at h
        obtain ⟨symbol, hsymbol, h⟩ := h
        cases h
        rw [List.take_succ_cons, List.take_zero, List.mem_singleton] at hfeed
        rw [← hfeed] at hsymbol
        cases hsymbol
        rfl
      · cases h

theorem mem_of_isBlank {c : Char} (h : isBlank c = true) :
    c ∈ [' ', '\t', '\r', '\x0c', '\x0b'] := by
  simp only [isBlank, Bool.or_eq_true, decide_eq_true_eq] at h
  simp only [List.mem_cons, List.not_mem_nil, or_false]
  tauto

end Lexer

/-! Tokens and blanks -/

namespace Token

/-- The token covers the character at offset `i`. -/
def Covers (tok : Token) (i : Nat) : Prop :=
  tok.position.offset ≤ i ∧ i < tok.position.offset + tok.text.length

end Token

namespace Lexer.Scans

variable {p : Position} {cs : List Char} {s : Scanned}

/-- The end stands behind all characters. -/
theorem finish_eq (h : Scans p cs s) : s.finish = p.advance cs := by
  induction h with
  | nil p => rfl
  | blank _ _ ih => exact ih
  | @token p c rest s kind n _ _ _ ih =>
      exact ih.trans (by rw [← Position.advance_append, List.take_append_drop])

theorem text_length_pos (h : Scans p cs s) : ∀ tok ∈ s.tokens, 0 < tok.text.length := by
  induction h with
  | nil p =>
      intro tok htok
      cases htok
  | blank _ _ ih => exact ih
  | @token p c rest s kind n _ longest _ ih =>
      refine List.forall_mem_cons.2 ⟨?_, ih⟩
      have := tokenAt?_pos longest
      rw [String.length_ofList, List.length_take, List.length_cons]
      omega

/-- No token begins before the one before it has ended. -/
theorem disjoint (h : Scans p cs s) :
    (∀ tok ∈ s.withEof, p.offset ≤ tok.position.offset) ∧
      s.withEof.Pairwise fun a b => a.position.offset + a.text.length ≤ b.position.offset := by
  induction h with
  | nil p =>
      refine ⟨fun tok htok => ?_, List.pairwise_singleton _ _⟩
      obtain rfl := List.mem_singleton.1 htok
      exact Nat.le_refl _
  | @blank p c rest s _ _ ih =>
      refine ⟨fun tok htok => ?_, ih.2⟩
      have := ih.1 tok htok
      rw [Position.offset_next] at this
      omega
  | @token p c rest s kind n _ _ _ ih =>
      have hrest : ∀ tok ∈ s.withEof,
          p.offset + ((c :: rest).take n).length ≤ tok.position.offset := by
        intro tok htok
        have := ih.1 tok htok
        rwa [Position.offset_advance] at this
      constructor
      · intro tok htok
        rcases List.mem_cons.1 htok with rfl | htok
        · exact Nat.le_refl _
        · exact (Nat.le_add_right _ _).trans (hrest tok htok)
      · refine List.pairwise_cons.2 ⟨?_, ih.2⟩
        intro tok htok
        rw [String.length_ofList]
        exact hrest tok htok

/-- The tokens, and blanks before the first one and behind each of them, are all of the text. -/
theorem gaps (h : Scans p cs s) :
    ∃ (first : List Char) (gaps : List (List Char)), gaps.length = s.tokens.length ∧
      (∀ gap ∈ first :: gaps, ∀ c ∈ gap, isBlank c = true) ∧
      cs = first ++ (s.tokens.zipWith (fun tok gap => tok.text.toList ++ gap) gaps).flatten := by
  induction h with
  | nil p => exact ⟨[], [], rfl, by simp, rfl⟩
  | @blank p c rest s hblank _ ih =>
      obtain ⟨first, gaps, hlength, hgaps, hrest⟩ := ih
      refine ⟨c :: first, gaps, hlength, ?_, by rw [hrest, List.cons_append]⟩
      rw [List.forall_mem_cons] at hgaps ⊢
      exact ⟨List.forall_mem_cons.2 ⟨hblank, hgaps.1⟩, hgaps.2⟩
  | @token p c rest s kind n _ _ _ ih =>
      obtain ⟨first, gaps, hlength, hgaps, hrest⟩ := ih
      refine ⟨[], first :: gaps, congrArg (· + 1) hlength, ?_, ?_⟩
      · exact List.forall_mem_cons.2 ⟨by simp, hgaps⟩
      · rw [List.zipWith_cons_cons, List.flatten_cons, String.toList_ofList, List.nil_append,
          List.append_assoc, ← hrest, List.take_append_drop]

/-- A character that no token covers is a blank. -/
theorem isBlank_of_uncovered (h : Scans p cs s) :
    ∀ i c, cs[i]? = some c → (∀ tok ∈ s.tokens, ¬tok.Covers (p.offset + i)) → isBlank c = true := by
  induction h with
  | nil p =>
      intro i c hc
      cases hc
  | @blank p d rest s hblank _ ih =>
      intro i c hc huncovered
      cases i with
      | zero =>
          cases hc
          exact hblank
      | succ i =>
          refine ih i c hc ?_
          rw [Position.offset_next, Nat.add_assoc, Nat.add_comm 1]
          exact huncovered
  | @token p d rest s kind n _ longest _ ih =>
      intro i c hc huncovered
      rw [List.forall_mem_cons] at huncovered
      have hlength : ((d :: rest).take n).length = n :=
        List.length_take_of_le (tokenAt?_le_length longest)
      -- the place is not covered by this token, so it lies behind it
      have hbehind : n ≤ i := by
        have := huncovered.1
        simp only [Token.Covers, String.length_ofList, hlength] at this
        omega
      refine ih (i - n) c ?_ ?_
      · rw [List.getElem?_drop, Nat.add_sub_cancel' hbehind]
        exact hc
      · rw [Position.offset_advance, hlength, Nat.add_assoc, Nat.add_sub_cancel' hbehind]
        exact huncovered.2

end Lexer.Scans

/-! Sources -/

/-- The tokens of a source cover it, but for the blanks, and their places lead back to their
texts. -/
structure Scanned.CutsUp (s : Scanned) (source : String) : Prop where
  /-- Each token begins behind the one before it, and not before that one has ended. -/
  ordered : s.withEof.Pairwise fun a b =>
    a.position.offset < b.position.offset ∧ a.position.offset + a.text.length ≤ b.position.offset
  /-- The text of a token is what the source has at its offset. -/
  text_eq : ∀ tok ∈ s.withEof,
    (source.toList.drop tok.position.offset).take tok.text.length = tok.text.toList
  /-- What no token covers is blank. -/
  uncovered : ∀ i c, source.toList[i]? = some c → (∀ tok ∈ s.tokens, ¬tok.Covers i) →
    c ∈ [' ', '\t', '\r', '\x0c', '\x0b']
  /-- Texts and gaps, put together, are the source. -/
  whole : ∃ (first : List Char) (gaps : List (List Char)), gaps.length = s.tokens.length ∧
    (∀ gap ∈ first :: gaps, ∀ c ∈ gap, c ∈ [' ', '\t', '\r', '\x0c', '\x0b']) ∧
    source.toList =
      first ++ (s.tokens.zipWith (fun tok gap => tok.text.toList ++ gap) gaps).flatten
  /-- The line counts the line feeds before the token. -/
  line_eq : ∀ tok ∈ s.withEof,
    tok.position.line = 1 + (source.toList.take tok.position.offset).count '\n'
  /-- The column is counted from the beginning of the line. -/
  column_eq : ∀ tok ∈ s.withEof, ∃ first,
    Text.BeginsLine source.toList tok.position.offset first ∧
      tok.position.column = tok.position.offset - first + 1
  /-- Each line feed is one token, -/
  feed : ∀ i, source.toList[i]? = some '\n' →
    ∃! tok, tok ∈ s.tokens ∧ tok.kind = .newline ∧ tok.position.offset = i
  /-- and each such token one line feed. -/
  newline : ∀ tok ∈ s.tokens, tok.kind = .newline →
    tok.text = "\n" ∧ source.toList[tok.position.offset]? = some '\n'
  /-- The last token is the only one for the end, and stands there. -/
  ends : s.withEof.getLast? = some (Token.eof s.finish) ∧
    s.withEof.filter (·.kind = .eof) = [Token.eof s.finish] ∧ s.finish.offset = source.length
  /-- The line that a token names has its text at its column, -/
  line_text : ∀ tok ∈ s.withEof, tok.kind ≠ .newline → ∃ line before after,
    Text.line? source tok.position.line = some line ∧
      line.toList = before ++ tok.text.toList ++ after ∧ tok.position.column = before.length + 1
  /-- and ends at it if the token is a line feed. -/
  line_end : ∀ tok ∈ s.tokens, tok.kind = .newline → ∃ line,
    Text.line? source tok.position.line = some line ∧ tok.position.column = line.length + 1

section Sources

variable {source : String} {s : Scanned}

/-- Only a line feed is a token with a line feed in its text. -/
theorem not_mem_text_of_scan (h : scan source = .ok s) {tok : Token} (htok : tok ∈ s.withEof)
    (hkind : tok.kind ≠ .newline) : '\n' ∉ tok.text.toList := by
  rcases List.mem_append.1 htok with htok | heof
  · have hall : ∀ tok ∈ s.tokens, '\n' ∈ tok.text.toList → tok.kind = .newline := by
      refine Lexer.forall_mem_scanFrom ?_ _ _ h
      intro cs kind n p hat hfeed
      exact Lexer.eq_newline_of_mem hat (by simpa using hfeed)
    exact fun hfeed => hkind (hall tok htok hfeed)
  · obtain rfl := List.mem_singleton.1 heof
    simp [Token.eof]

theorem text_newline_of_scan (h : scan source = .ok s) {tok : Token} (htok : tok ∈ s.tokens)
    (hkind : tok.kind = .newline) : tok.text = "\n" :=
  spelled_of_scan h tok htok "\n" (by rw [hkind]; rfl)

theorem ordered_of_scan (h : scan source = .ok s) : s.withEof.Pairwise fun a b =>
    a.position.offset < b.position.offset ∧
      a.position.offset + a.text.length ≤ b.position.offset := by
  have hscans := Lexer.scans_of_scanFrom h
  have hdisjoint := hscans.disjoint.2
  have hne := hscans.text_length_pos
  rw [Scanned.withEof, List.pairwise_append] at hdisjoint ⊢
  obtain ⟨htokens, _, hend⟩ := hdisjoint
  refine ⟨?_, List.pairwise_singleton _ _, ?_⟩
  · refine htokens.imp_of_mem fun {a b} ha _ hab => ⟨?_, hab⟩
    have := hne a ha
    omega
  · intro a ha b hb
    have hab := hend a ha b hb
    have := hne a ha
    exact ⟨by omega, hab⟩

theorem uncovered_of_scan (h : scan source = .ok s) {i : Nat} {c : Char}
    (hc : source.toList[i]? = some c) (huncovered : ∀ tok ∈ s.tokens, ¬tok.Covers i) :
    c ∈ [' ', '\t', '\r', '\x0c', '\x0b'] := by
  refine Lexer.mem_of_isBlank ((Lexer.scans_of_scanFrom h).isBlank_of_uncovered i c hc ?_)
  rwa [show Position.start.offset + i = i from Nat.zero_add i]

/-- What stands at an offset that a token covers is part of its text. -/
theorem mem_text_of_covers (h : scan source = .ok s) {tok : Token} (htok : tok ∈ s.withEof)
    {i : Nat} {c : Char} (hc : source.toList[i]? = some c) (hcovers : tok.Covers i) :
    c ∈ tok.text.toList := by
  obtain ⟨before, after, hsource, hposition⟩ := exists_text_of_scan h htok
  obtain ⟨hle, hlt⟩ := hcovers
  rw [hposition, Position.offset_start_advance] at hle hlt
  rw [hsource, List.getElem?_append_right hle, List.getElem?_append_left] at hc
  · exact List.mem_of_getElem? hc
  · rw [String.length_toList]
    omega

/-- An offset is the place of one token at most. -/
theorem eq_of_offset (h : scan source = .ok s) {a b : Token} (ha : a ∈ s.withEof)
    (hb : b ∈ s.withEof) (hoffset : a.position.offset = b.position.offset) : a = b := by
  obtain ⟨before, after, hsource, hposition⟩ := exists_text_of_scan h ha
  obtain ⟨before', after', hsource', hposition'⟩ := exists_text_of_scan h hb
  rw [hposition, hposition', Position.offset_start_advance, Position.offset_start_advance]
    at hoffset
  obtain rfl := List.append_inj_left (hsource.symm.trans hsource') hoffset
  have hsame : a.position = b.position := hposition.trans hposition'.symm
  exact eq_of_line_column h ha hb (by rw [hsame]) (by rw [hsame])

/-- Each line feed of a source is a token. -/
theorem exists_newline_of_scan (h : scan source = .ok s) {i : Nat}
    (hfeed : source.toList[i]? = some '\n') :
    ∃ tok ∈ s.tokens, tok.kind = .newline ∧ tok.position.offset = i := by
  by_contra hnone
  have huncovered : ∀ tok ∈ s.tokens, ¬tok.Covers i := by
    intro tok htok hcovers
    have hmem := List.mem_append_left [Token.eof s.finish] htok
    have hkind : tok.kind = .newline := by
      by_contra hkind
      exact not_mem_text_of_scan h hmem hkind (mem_text_of_covers h hmem hfeed hcovers)
    have hlength : tok.text.length = 1 := by
      rw [text_newline_of_scan h htok hkind]
      rfl
    refine hnone ⟨tok, htok, hkind, ?_⟩
    unfold Token.Covers at hcovers
    omega
  exact absurd (uncovered_of_scan h hfeed huncovered) (by decide)

/-- The line that a token names, cut where the token stands. -/
theorem line?_of_scan (h : scan source = .ok s) {tok : Token} (htok : tok ∈ s.withEof) :
    ∃ before after, Text.line? source tok.position.line = some (String.ofList
      (before ++ (tok.text.toList ++ after).takeWhile (· ≠ '\n'))) ∧
      tok.position.column = before.length + 1 := by
  obtain ⟨before, after, hsource, hposition⟩ := exists_text_of_scan h htok
  rw [hposition, Position.line?_advance hsource, Position.column_advance]
  exact ⟨_, after, rfl, rfl⟩

/-- The tokens of a source cut it up without loss, and their places are true. -/
theorem scan_cutsUp (h : scan source = .ok s) : s.CutsUp source where
  ordered := ordered_of_scan h
  text_eq := by
    intro tok htok
    obtain ⟨before, after, hsource, hposition⟩ := exists_text_of_scan h htok
    rw [hposition, Position.offset_start_advance, hsource, List.drop_left, ← String.length_toList,
      List.take_left]
  uncovered := fun i c => uncovered_of_scan h
  whole := by
    obtain ⟨first, gaps, hlength, hgaps, hsource⟩ := (Lexer.scans_of_scanFrom h).gaps
    exact ⟨first, gaps, hlength, fun gap hgap c hc => Lexer.mem_of_isBlank (hgaps gap hgap c hc),
      hsource⟩
  line_eq := by
    intro tok htok
    obtain ⟨before, after, hsource, hposition⟩ := exists_text_of_scan h htok
    rw [hposition, Position.offset_start_advance, hsource, List.take_left, Position.line_advance]
    rfl
  column_eq := by
    intro tok htok
    obtain ⟨before, after, hsource, hposition⟩ := exists_text_of_scan h htok
    rw [hposition, Position.offset_start_advance, Position.column_advance, hsource]
    refine ⟨_, Text.beginsLine_lastLine before _, ?_⟩
    have := Text.length_lastLine_le before
    omega
  feed := by
    intro i hfeed
    obtain ⟨tok, htok, hkind, hoffset⟩ := exists_newline_of_scan h hfeed
    refine ⟨tok, ⟨htok, hkind, hoffset⟩, ?_⟩
    rintro other ⟨hother, _, hsame⟩
    exact eq_of_offset h (List.mem_append_left _ hother) (List.mem_append_left _ htok)
      (hsame.trans hoffset.symm)
  newline := by
    intro tok htok hkind
    have htext := text_newline_of_scan h htok hkind
    obtain ⟨before, after, hsource, hposition⟩ :=
      exists_text_of_scan h (List.mem_append_left _ htok)
    refine ⟨htext, ?_⟩
    rw [hposition, Position.offset_start_advance, hsource,
      List.getElem?_append_right (Nat.le_refl _), Nat.sub_self, htext]
    rfl
  ends := by
    refine ⟨List.getLast?_concat, ?_, ?_⟩
    · have hnone : s.tokens.filter (·.kind = .eof) = [] :=
        List.filter_eq_nil_iff.2 fun tok htok => by simpa using kind_ne_eof_of_scan h tok htok
      rw [Scanned.withEof, List.filter_append, hnone]
      rfl
    · rw [(Lexer.scans_of_scanFrom h).finish_eq, Position.offset_start_advance,
        String.length_toList]
  line_text := by
    intro tok htok hkind
    obtain ⟨before, after, hline, hcolumn⟩ := line?_of_scan h htok
    have hall : ∀ c ∈ tok.text.toList, decide (c ≠ '\n') = true :=
      fun c hc => decide_eq_true fun heq => not_mem_text_of_scan h htok hkind (heq ▸ hc)
    rw [List.takeWhile_append_of_pos hall] at hline
    refine ⟨_, before, after.takeWhile (· ≠ '\n'), hline, ?_, hcolumn⟩
    rw [String.toList_ofList, List.append_assoc]
  line_end := by
    intro tok htok hkind
    obtain ⟨before, after, hline, hcolumn⟩ := line?_of_scan h (List.mem_append_left _ htok)
    have hnone : (tok.text.toList ++ after).takeWhile (· ≠ '\n') = [] := by
      rw [text_newline_of_scan h htok hkind]
      rfl
    rw [hnone, List.append_nil] at hline
    exact ⟨_, hline, by rw [hcolumn, String.length_ofList]⟩

/-- Two lines, with blanks around their tokens. -/
theorem scan_cutsUp_two_lines :
    ∃ s, scan " a =\t1.5\n//b " = .ok s ∧ s.tokens.length = 6 ∧ s.CutsUp " a =\t1.5\n//b " :=
  ⟨⟨[⟨.ident, "a", ⟨1, 1, 2⟩⟩, ⟨.equals, "=", ⟨3, 1, 4⟩⟩, ⟨.number, "1.5", ⟨5, 1, 6⟩⟩,
      ⟨.newline, "\n", ⟨8, 1, 9⟩⟩, ⟨.doubleSlash, "//", ⟨9, 2, 1⟩⟩, ⟨.ident, "b", ⟨11, 2, 3⟩⟩],
      ⟨13, 2, 5⟩⟩,
    by decide +kernel, rfl, scan_cutsUp (by decide +kernel)⟩

end Sources

end FlightCurve

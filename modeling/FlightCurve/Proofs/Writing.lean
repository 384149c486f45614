import FlightCurve.Proofs.Positions
import FlightCurve.Proofs.Scanning

/-!
Writing tokens down. A token of a source keeps its kind when its text is followed by a space and not
by what stood after it, because each token is the longest one at its place and no token has a space
in it.

The main fact is that tokens written with a space after each are cut into the same tokens again. So
whatever may be said of sequences of tokens may be said of sources.
-/

namespace FlightCurve

namespace Lexer

/-- What follows a token here: nothing, or a space first. -/
def SpaceFirst (after : List Char) : Prop := ∀ c ∈ after.head?, c = ' '

theorem spaceFirst_nil : SpaceFirst [] := by
  intro c hc
  cases hc

theorem spaceFirst_space (after : List Char) : SpaceFirst (' ' :: after) := by
  intro c hc
  cases hc
  rfl

section Longest

variable {cs after : List Char} {n : Nat}

/-- A run that ends within the first `n` characters still ends there when a space comes after
them. -/
theorem length_takeWhile_take {p : Char → Bool} (hp : p ' ' = false)
    (hn : (cs.takeWhile p).length ≤ n) (hafter : SpaceFirst after) :
    ((cs.take n ++ after).takeWhile p).length = (cs.takeWhile p).length := by
  induction cs generalizing n with
  | nil =>
      rw [List.take_nil, List.nil_append]
      cases after with
      | nil => rfl
      | cons c after =>
          obtain rfl := hafter c rfl
          simp [hp]
  | cons c cs ih =>
      cases hc : p c with
      | true =>
          rw [List.takeWhile_cons_of_pos hc, List.length_cons] at hn ⊢
          obtain ⟨m, rfl⟩ : ∃ m, n = m + 1 := ⟨n - 1, by omega⟩
          rw [List.take_succ_cons, List.cons_append, List.takeWhile_cons_of_pos hc,
            List.length_cons, ih (by omega)]
      | false =>
          rw [List.takeWhile_cons_of_neg (by simp [hc])]
          cases n with
          | zero =>
              cases after with
              | nil => rfl
              | cons d after =>
                  obtain rfl := hafter d rfl
                  simp [hp]
          | succ n => simp [hc]

theorem digitRun_take (hn : digitRun cs ≤ n) (hafter : SpaceFirst after) :
    digitRun (cs.take n ++ after) = digitRun cs :=
  length_takeWhile_take (by decide) hn hafter

theorem digitRun_le_length (cs : List Char) : digitRun cs ≤ cs.length :=
  (List.takeWhile_sublist Char.isDigit).length_le

/-- Behind the first `k` of `n` characters stand the other ones of the `n`. -/
theorem drop_take_append {k : Nat} (hk : k ≤ n) (hlength : k ≤ cs.length) (after : List Char) :
    (cs.take n ++ after).drop k = (cs.drop k).take (n - k) ++ after := by
  rw [List.drop_append_of_le_length, List.drop_take]
  rw [List.length_take]
  exact Nat.le_min.2 ⟨hk, hlength⟩

theorem digitRun_le_mantissaLength (cs : List Char) : digitRun cs ≤ mantissaLength cs := by
  unfold mantissaLength
  split
  · split
    · rename_i hzero
      exact Nat.le_of_eq hzero.1
    · omega
  · exact Nat.le_refl _

theorem mantissaLength_le_length (cs : List Char) : mantissaLength cs ≤ cs.length := by
  unfold mantissaLength
  split
  · rename_i fraction hpoint
    split
    · exact Nat.zero_le _
    · have hlength := congrArg List.length hpoint
      have := digitRun_le_length fraction
      rw [List.length_drop, List.length_cons] at hlength
      omega
  · exact digitRun_le_length cs

theorem signLength_le_length (cs : List Char) : signLength cs ≤ cs.length := by
  unfold signLength
  split <;> simp

theorem exponentLength_le_length (cs : List Char) : exponentLength cs ≤ cs.length := by
  unfold exponentLength
  split
  · rename_i c rest
    have hsign := signLength_le_length rest
    have hrun := digitRun_le_length (rest.drop (signLength rest))
    rw [List.length_drop] at hrun
    rw [List.length_cons]
    split
    · split <;> omega
    · exact Nat.zero_le _
  · exact Nat.le_refl 0

theorem numberLength_le_length (cs : List Char) : numberLength cs ≤ cs.length := by
  have hmantissa := mantissaLength_le_length cs
  have hexponent := exponentLength_le_length (cs.drop (mantissaLength cs))
  rw [List.length_drop] at hexponent
  unfold numberLength
  split <;> omega

theorem identLength_le_length (cs : List Char) : identLength cs ≤ cs.length := by
  unfold identLength
  split
  · rename_i c rest
    have hrun := (List.takeWhile_sublist (l := rest) isIdentRest).length_le
    rw [List.length_cons]
    split <;> omega
  · exact Nat.le_refl 0

/-- A token is no longer than what it begins. -/
theorem tokenAt?_le_length {kind : Kind} (h : tokenAt? cs = some (kind, n)) : n ≤ cs.length := by
  unfold tokenAt? at h
  split at h
  · cases h
    exact numberLength_le_length cs
  · split at h
    · cases h
      exact identLength_le_length cs
    · unfold symbolAt? at h
      split at h
      · cases h
        simp
      · rw [Option.map_eq_some_iff] at h
        obtain ⟨symbol, _, h⟩ := h
        cases h
        simp
      · cases h

theorem mantissaLength_take (hpos : 0 < mantissaLength cs) (hn : mantissaLength cs ≤ n)
    (hafter : SpaceFirst after) : mantissaLength (cs.take n ++ after) = mantissaLength cs := by
  have hrun : digitRun cs ≤ n := Nat.le_trans (digitRun_le_mantissaLength cs) hn
  have hdrop := drop_take_append hrun (digitRun_le_length cs) after
  unfold mantissaLength at hpos hn ⊢
  rw [digitRun_take hrun hafter, hdrop]
  split at hpos
  · rename_i fraction hpoint
    rw [hpoint] at hn ⊢
    simp only at hn
    split at hpos
    · omega
    · rename_i hdigits
      rw [if_neg hdigits] at hn
      obtain ⟨m, hm⟩ : ∃ m, n - digitRun cs = m + 1 := ⟨n - digitRun cs - 1, by omega⟩
      rw [hm, List.take_succ_cons, List.cons_append]
      simp only
      rw [digitRun_take (by omega) hafter, if_neg hdigits]
  · rename_i hpoint
    -- the digits stand alone: neither the next of the `n` characters nor a space is a point
    split
    · rename_i fraction hfraction
      cases hrest : cs.drop (digitRun cs) with
      | nil =>
          rw [hrest, List.take_nil, List.nil_append] at hfraction
          obtain h := hafter '.' (by rw [hfraction]; rfl)
          cases h
      | cons c rest =>
          rw [hrest] at hfraction
          cases hm : n - digitRun cs with
          | zero =>
              rw [hm, List.take_zero, List.nil_append] at hfraction
              obtain h := hafter '.' (by rw [hfraction]; rfl)
              cases h
          | succ m =>
              rw [hm, List.take_succ_cons, List.cons_append] at hfraction
              cases hfraction
              exact absurd hrest (hpoint rest)
    · rfl

theorem exponentLength_of_spaceFirst (hafter : SpaceFirst after) : exponentLength after = 0 := by
  cases after with
  | nil => rfl
  | cons c after =>
      obtain rfl := hafter c rfl
      rfl

theorem signLength_take (hn : 0 < n) (hcs : cs ≠ []) :
    signLength (cs.take n ++ after) = signLength cs := by
  obtain ⟨m, rfl⟩ : ∃ m, n = m + 1 := ⟨n - 1, by omega⟩
  cases cs with
  | nil => exact absurd rfl hcs
  | cons c cs =>
      rw [List.take_succ_cons, List.cons_append]
      unfold signLength
      split <;> split <;> simp_all

theorem exponentLength_take (hafter : SpaceFirst after) :
    exponentLength (cs.take (exponentLength cs) ++ after) = exponentLength cs := by
  by_cases hzero : exponentLength cs = 0
  · rw [hzero, List.take_zero, List.nil_append, exponentLength_of_spaceFirst hafter]
  · cases cs with
    | nil => exact absurd rfl hzero
    | cons c cs =>
        have hmark : c = 'e' ∨ c = 'E' := by
          by_contra h
          exact hzero (by rw [exponentLength, if_neg h])
        have hdigits : digitRun (cs.drop (signLength cs)) ≠ 0 := by
          intro h
          exact hzero (by rw [exponentLength, if_pos hmark, if_pos h])
        have hlength : exponentLength (c :: cs) =
            1 + signLength cs + digitRun (cs.drop (signLength cs)) := by
          rw [exponentLength, if_pos hmark, if_neg hdigits]
        have hne : cs ≠ [] := by
          rintro rfl
          exact hdigits rfl
        generalize hk : signLength cs + digitRun (cs.drop (signLength cs)) = k at *
        have hsucc : exponentLength (c :: cs) = k + 1 := by omega
        have hsign : signLength (cs.take k ++ after) = signLength cs :=
          signLength_take (by omega) hne
        have hdrop := drop_take_append (n := k) (by omega) (signLength_le_length cs) after
        have hrun : digitRun ((cs.drop (signLength cs)).take (k - signLength cs) ++ after) =
            digitRun (cs.drop (signLength cs)) :=
          digitRun_take (by omega) hafter
        rw [hsucc, List.take_succ_cons, List.cons_append, exponentLength, if_pos hmark, hsign,
          hdrop, hrun, if_neg hdigits]
        omega

theorem numberLength_take (hpos : 0 < numberLength cs) (hafter : SpaceFirst after) :
    numberLength (cs.take (numberLength cs) ++ after) = numberLength cs := by
  have hmantissa : mantissaLength cs ≠ 0 := by
    intro h
    rw [numberLength, if_pos h] at hpos
    exact absurd hpos (Nat.lt_irrefl 0)
  have hnumber : numberLength cs =
      mantissaLength cs + exponentLength (cs.drop (mantissaLength cs)) := by
    rw [numberLength, if_neg hmantissa]
  have htake := mantissaLength_take (n := numberLength cs) (Nat.pos_of_ne_zero hmantissa)
    (by omega) hafter
  have hdrop := drop_take_append (n := numberLength cs) (by omega) (mantissaLength_le_length cs)
    after
  have hrest : numberLength cs - mantissaLength cs =
      exponentLength (cs.drop (mantissaLength cs)) := by omega
  rw [hrest] at hdrop
  rw [numberLength, htake, if_neg hmantissa, hdrop, exponentLength_take hafter]
  exact hnumber.symm

theorem identLength_take (hpos : 0 < identLength cs) (hafter : SpaceFirst after) :
    identLength (cs.take (identLength cs) ++ after) = identLength cs := by
  cases cs with
  | nil => exact absurd hpos (Nat.lt_irrefl 0)
  | cons c cs =>
      have hletter : c.isAlpha = true := by
        by_contra h
        rw [identLength, if_neg h] at hpos
        exact absurd hpos (Nat.lt_irrefl 0)
      have hident : identLength (c :: cs) = (cs.takeWhile isIdentRest).length + 1 := by
        rw [identLength, if_pos hletter, Nat.add_comm]
      rw [hident, List.take_succ_cons, List.cons_append, identLength, if_pos hletter,
        length_takeWhile_take (by decide) (Nat.le_refl _) hafter, Nat.add_comm]

/-- A character that is neither a digit nor a point begins no number. -/
theorem numberLength_cons_eq_zero {c : Char} (hdigit : c.isDigit = false) (hpoint : c ≠ '.')
    (cs : List Char) : numberLength (c :: cs) = 0 := by
  have hrun : digitRun (c :: cs) = 0 := by
    rw [digitRun, List.takeWhile_cons_of_neg (by simp [hdigit])]
    rfl
  have hmantissa : mantissaLength (c :: cs) = 0 := by
    unfold mantissaLength
    rw [hrun, List.drop_zero]
    split
    · rename_i heq
      cases heq
      exact absurd rfl hpoint
    · rfl
  rw [numberLength, if_pos hmantissa]

theorem identLength_cons_eq_zero {c : Char} (h : c.isAlpha = false) (cs : List Char) :
    identLength (c :: cs) = 0 := by
  rw [identLength, if_neg (by simp [h])]

theorem le_toNat_of_isAlpha {c : Char} (h : c.isAlpha = true) : 'A'.toNat ≤ c.toNat := by
  rcases Bool.or_eq_true_iff.1 h with hupper | hlower
  · exact UInt32.le_iff_toNat_le.1 (of_decide_eq_true hupper).1
  · have hle := UInt32.le_iff_toNat_le.1 (of_decide_eq_true (Bool.and_eq_true_iff.1 hlower).1)
    exact Nat.le_trans (by decide) hle

/-- A letter begins no number. -/
theorem isDigit_of_isAlpha {c : Char} (h : c.isAlpha = true) : c.isDigit = false ∧ c ≠ '.' := by
  constructor
  · by_contra hdigit
    have hle := (Char.isDigit_iff_toNat.1 (Bool.not_eq_false _ ▸ hdigit)).2
    exact absurd (Nat.le_trans (le_toNat_of_isAlpha h) hle) (by decide)
  · rintro rfl
    cases h

theorem symbol?_isSome {c : Char} {kind : Kind} (h : symbol? c = some kind) :
    c.isDigit = false ∧ c ≠ '.' ∧ c.isAlpha = false := by
  unfold symbol? at h
  split at h
  all_goals first | decide | cases h

theorem symbolAt?_take {kind : Kind} (h : symbolAt? cs = some (kind, n))
    (hafter : SpaceFirst after) :
    symbolAt? (cs.take n ++ after) = some (kind, n) ∧
      ∃ c rest, cs.take n = c :: rest ∧ ∃ other, symbol? c = some other := by
  unfold symbolAt? at h
  split at h
  · cases h
    exact ⟨rfl, '/', ['/'], rfl, .slash, rfl⟩
  · rename_i c rest hslashes
    rw [Option.map_eq_some_iff] at h
    obtain ⟨symbol, hsymbol, h⟩ := h
    cases h
    refine ⟨?_, c, [], rfl, _, hsymbol⟩
    rw [List.take_succ_cons, List.take_zero, List.singleton_append]
    unfold symbolAt?
    split
    · rename_i heq
      cases heq
      obtain h := hafter '/' rfl
      cases h
    · rename_i heq
      cases heq
      rw [hsymbol]
      rfl
    · rename_i heq
      cases heq
  · cases h

/-- The token at the front is the same when a space is put after it. -/
theorem tokenAt?_take {kind : Kind} (h : tokenAt? cs = some (kind, n))
    (hafter : SpaceFirst after) : tokenAt? (cs.take n ++ after) = some (kind, n) := by
  unfold tokenAt? at h
  split at h
  · rename_i hnumber
    cases h
    have htake := numberLength_take hnumber hafter
    rw [tokenAt?, htake, if_pos hnumber]
  · split at h
    · rename_i hident
      cases h
      have htake := identLength_take hident hafter
      cases cs with
      | nil => exact absurd hident (Nat.lt_irrefl 0)
      | cons c cs =>
          have hletter : c.isAlpha = true := by
            by_contra h
            rw [identLength_cons_eq_zero (by simpa using h)] at hident
            exact absurd hident (Nat.lt_irrefl 0)
          obtain ⟨hdigit, hpoint⟩ := isDigit_of_isAlpha hletter
          obtain ⟨m, hm⟩ : ∃ m, identLength (c :: cs) = m + 1 :=
            ⟨identLength (c :: cs) - 1, by omega⟩
          rw [hm, List.take_succ_cons, List.cons_append] at htake ⊢
          rw [tokenAt?, numberLength_cons_eq_zero hdigit hpoint, if_neg (Nat.lt_irrefl 0), htake,
            if_pos (Nat.succ_pos m)]
    · obtain ⟨hsymbol, c, rest, htake, other, hc⟩ := symbolAt?_take h hafter
      obtain ⟨hdigit, hpoint, hletter⟩ := symbol?_isSome hc
      rw [htake, List.cons_append] at hsymbol ⊢
      rw [tokenAt?, numberLength_cons_eq_zero hdigit hpoint, if_neg (Nat.lt_irrefl 0),
        identLength_cons_eq_zero hletter, if_neg (Nat.lt_irrefl 0)]
      exact hsymbol

end Longest

theorem isBlank_of_tokenAt? {c : Char} {rest : List Char} {kind : Kind} {n : Nat}
    (h : tokenAt? (c :: rest) = some (kind, n)) : isBlank c = false := by
  cases hblank : isBlank c with
  | false => rfl
  | true =>
      simp only [isBlank, Bool.or_eq_true, decide_eq_true_eq] at hblank
      obtain (((rfl | rfl) | rfl) | rfl) | rfl := hblank <;>
      · rw [tokenAt?, numberLength_cons_eq_zero (by decide) (by decide),
          identLength_cons_eq_zero (by decide)] at h
        cases h

end Lexer

/-! Tokens that can be written -/

/-- The text of the token, on its own, is a token of that kind. -/
def Token.IsWritten (tok : Token) : Prop :=
  Lexer.tokenAt? tok.text.toList = some (tok.kind, tok.text.toList.length)

instance (tok : Token) : Decidable tok.IsWritten :=
  inferInstanceAs (Decidable (Lexer.tokenAt? _ = _))

/-- The text is, on its own, a token of the kind. -/
def IsLexeme (lexeme : Kind × String) : Prop :=
  Lexer.tokenAt? lexeme.2.toList = some (lexeme.1, lexeme.2.toList.length)

instance (lexeme : Kind × String) : Decidable (IsLexeme lexeme) :=
  inferInstanceAs (Decidable (Lexer.tokenAt? _ = _))

theorem Token.isWritten_iff {tok : Token} : tok.IsWritten ↔ IsLexeme tok.lexeme := Iff.rfl

/-- Tokens written one after the other, a space after each. -/
def written (ts : List Token) : List Char := ts.flatMap fun tok => tok.text.toList ++ [' ']

theorem Token.IsWritten.spelled {tok : Token} (h : tok.IsWritten) : tok.Spelled := by
  intro text htext
  have hspelling := Lexer.tokenAt?_spelling h text htext
  rwa [List.take_length, String.ofList_toList] at hspelling

/-- Written tokens instead of the last ones. -/
theorem spelled_append {taken rest rest' : List Token} (h : ∀ tok ∈ taken ++ rest, tok.Spelled)
    (hrest' : ∀ tok ∈ rest', tok.IsWritten) : ∀ tok ∈ taken ++ rest', tok.Spelled := by
  rw [List.forall_mem_append] at h ⊢
  exact ⟨h.1, fun tok htok => (hrest' tok htok).spelled⟩

theorem Token.IsWritten.kind_ne_eof {tok : Token} (h : tok.IsWritten) : tok.kind ≠ .eof := by
  intro hkind
  rw [Token.IsWritten, hkind] at h
  exact Lexer.tokenAt?_ne_eof h

/-- Every token of a source is written. -/
theorem isWritten_of_scan {source : String} {s : Scanned} (h : scan source = .ok s) :
    ∀ tok ∈ s.tokens, tok.IsWritten := by
  refine Lexer.forall_mem_scanFrom (fun cs kind n p hat => ?_) _ _ h
  have htake := Lexer.tokenAt?_take hat Lexer.spaceFirst_nil
  rw [List.append_nil] at htake
  have hlength : (cs.take n).length = n := List.length_take_of_le (Lexer.tokenAt?_le_length hat)
  change Lexer.tokenAt? (String.ofList (cs.take n)).toList = _
  rw [String.toList_ofList, htake, hlength]

/-- A text at the front that is the longest token there is the first token. -/
theorem scanFrom_text {kind : Kind} {text : String} {after : List Char}
    (hat : Lexer.tokenAt? (text.toList ++ after) = some (kind, text.toList.length))
    (p : Position) :
    Lexer.scanFrom p (text.toList ++ after) = (do
      let s ← Lexer.scanFrom (p.advance text.toList) after
      .ok ⟨⟨kind, text, p⟩ :: s.tokens, s.finish⟩) := by
  cases htext : text.toList with
  | nil =>
      have hpos := Lexer.tokenAt?_pos hat
      rw [htext] at hpos
      exact absurd hpos (Nat.lt_irrefl 0)
  | cons c rest =>
      rw [htext] at hat
      have htake : (c :: (rest ++ after)).take (c :: rest).length = c :: rest :=
        @List.take_left _ (c :: rest) after
      have hdrop : (c :: (rest ++ after)).drop (c :: rest).length = after :=
        @List.drop_left _ (c :: rest) after
      rw [List.cons_append] at hat ⊢
      rw [Lexer.scanFrom_some p (Lexer.isBlank_of_tokenAt? hat) hat, htake, hdrop, ← htext,
        String.ofList_toList]

/-- A lexeme at the front, at the end of the text or with a space after it, is the first token. -/
theorem scanFrom_lexeme {kind : Kind} {text : String} (h : IsLexeme (kind, text)) (p : Position)
    {after : List Char} (hafter : Lexer.SpaceFirst after) :
    Lexer.scanFrom p (text.toList ++ after) = (do
      let s ← Lexer.scanFrom (p.advance text.toList) after
      .ok ⟨⟨kind, text, p⟩ :: s.tokens, s.finish⟩) := by
  have hat := Lexer.tokenAt?_take h hafter
  rw [List.take_length] at hat
  exact scanFrom_text hat p

theorem scanFrom_written {ts : List Token} (hts : ∀ tok ∈ ts, tok.IsWritten) (p : Position) :
    ∃ s, Lexer.scanFrom p (written ts) = .ok s ∧ s.tokens.map Token.lexeme = ts.map Token.lexeme := by
  induction ts generalizing p with
  | nil => exact ⟨_, Lexer.scanFrom_nil p, rfl⟩
  | cons tok ts ih =>
      rw [List.forall_mem_cons] at hts
      obtain ⟨s, hs, hlexemes⟩ := ih hts.2 ((p.advance tok.text.toList).next ' ')
      have hwritten : written (tok :: ts) = tok.text.toList ++ ' ' :: written ts := by
        simp [written]
      rw [hwritten, scanFrom_lexeme hts.1 p (Lexer.spaceFirst_space _),
        Lexer.scanFrom_blank _ _ rfl, hs]
      exact ⟨_, rfl, by rw [List.map_cons, List.map_cons, hlexemes]; rfl⟩

/-- Lexemes with single spaces between them are the tokens of their text. -/
theorem scanFrom_intercalate {lexemes : List (Kind × String)} (h : ∀ l ∈ lexemes, IsLexeme l)
    (p : Position) :
    ∃ s, Lexer.scanFrom p ([' '].intercalate (lexemes.map fun l => l.2.toList)) = .ok s ∧
      s.tokens.map Token.lexeme = lexemes := by
  induction lexemes generalizing p with
  | nil => exact ⟨_, Lexer.scanFrom_nil p, rfl⟩
  | cons l lexemes ih =>
      obtain ⟨kind, text⟩ := l
      rw [List.forall_mem_cons] at h
      cases lexemes with
      | nil =>
          have hlast := scanFrom_lexeme h.1 p Lexer.spaceFirst_nil
          rw [List.append_nil, Lexer.scanFrom_nil] at hlast
          rw [List.map_singleton, List.intercalate_singleton, hlast]
          exact ⟨_, rfl, rfl⟩
      | cons next lexemes =>
          obtain ⟨s, hs, hlexemes⟩ := ih h.2 ((p.advance text.toList).next ' ')
          rw [List.map_cons] at hs
          rw [List.map_cons, List.map_cons, List.intercalate_cons_cons, List.append_assoc,
            List.singleton_append, scanFrom_lexeme h.1 p (Lexer.spaceFirst_space _),
            Lexer.scanFrom_blank _ _ rfl, hs]
          exact ⟨_, rfl, by rw [List.map_cons, hlexemes]; rfl⟩

/-- Tokens that are written are, up to their places, the tokens of a source. -/
theorem exists_scan {ts : List Token} (hts : ∀ tok ∈ ts, tok.IsWritten) :
    ∃ source s, scan source = .ok s ∧ s.tokens.map Token.lexeme = ts.map Token.lexeme := by
  obtain ⟨s, hs, hlexemes⟩ := scanFrom_written hts .start
  refine ⟨String.ofList (written ts), s, ?_, hlexemes⟩
  rw [scan, String.toList_ofList, hs]

end FlightCurve

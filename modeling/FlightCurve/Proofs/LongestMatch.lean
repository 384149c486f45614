import FlightCurve.Compilation
import FlightCurve.Proofs.Lossless

/-!
The longest match. The texts of a kind of token are said here by a grammar for characters, and a
text is cut from the left: blanks are skipped, and otherwise the longest text of a token is taken,
up to where none begins.

The main statement is that scanning does exactly this, that it fails at the first character where it
ends early, and that the text before this character is cut into the same tokens on its own.
-/

namespace FlightCurve

namespace Lexer

/-! Texts of tokens -/

/-- One of the ten digits. -/
def IsDigit (c : Char) : Prop := '0' ≤ c ∧ c ≤ '9'

/-- One of the 52 letters. -/
def IsLetter (c : Char) : Prop := ('a' ≤ c ∧ c ≤ 'z') ∨ ('A' ≤ c ∧ c ≤ 'Z')

/-- `digits`, `digits . digits*` or `. digits`. -/
inductive IsMantissa : List Char → Prop
  | whole {ds : List Char} (nonempty : ds ≠ []) (digits : ∀ c ∈ ds, IsDigit c) : IsMantissa ds
  | decimal {ds fs : List Char} (nonempty : ds ≠ []) (digits : ∀ c ∈ ds, IsDigit c)
      (fraction : ∀ c ∈ fs, IsDigit c) : IsMantissa (ds ++ '.' :: fs)
  | point {fs : List Char} (nonempty : fs ≠ []) (fraction : ∀ c ∈ fs, IsDigit c) :
      IsMantissa ('.' :: fs)

/-- Nothing, or a mark, perhaps a sign, and digits. -/
inductive IsExponent : List Char → Prop
  | absent : IsExponent []
  | present {mark : Char} {sign ds : List Char} (mark_mem : mark ∈ ['e', 'E'])
      (sign_mem : sign ∈ [[], ['+'], ['-']]) (nonempty : ds ≠ []) (digits : ∀ c ∈ ds, IsDigit c) :
      IsExponent (mark :: (sign ++ ds))

/-- The tokens of one character. -/
def singles : List (Char × Kind) :=
  [('\n', .newline), ('+', .plus), ('-', .minus), ('*', .star), ('/', .slash), ('%', .percent),
   ('^', .caret), ('=', .equals), ('(', .lparen), (')', .rparen), (';', .semicolon)]

/-- The characters that are skipped. -/
def blanks : List Char := [' ', '\t', '\r', '\x0c', '\x0b']

end Lexer

/-- The texts of the tokens of a kind. -/
inductive Kind.Derives : Kind → List Char → Prop
  | number {mantissa exponent : List Char} (isMantissa : Lexer.IsMantissa mantissa)
      (isExponent : Lexer.IsExponent exponent) : Derives .number (mantissa ++ exponent)
  | ident {c : Char} {cs : List Char} (letter : Lexer.IsLetter c)
      (rest : ∀ d ∈ cs, Lexer.IsLetter d ∨ Lexer.IsDigit d ∨ d = '_') : Derives .ident (c :: cs)
  | doubleSlash : Derives .doubleSlash ['/', '/']
  | single {c : Char} {kind : Kind} (single : (c, kind) ∈ Lexer.singles) : Derives kind [c]

namespace Lexer

/-- Of the texts of tokens that stand at the front of `text ++ after`, `text` is the longest, and it
is one of this kind only. -/
structure IsLongest (kind : Kind) (text after : List Char) : Prop where
  derives : kind.Derives text
  longest : ∀ kind' text', Kind.Derives kind' text' → text' <+: text ++ after → text' <+: text
  only : ∀ kind', Kind.Derives kind' text → kind' = kind

/-- From the left, the text, the first character of which stands at a position, is cut into blanks
and the longest tokens, up to where it ends or no token begins. -/
inductive Segments : Position → List Char → List Token → List Char → Prop
  | stop {p : Position} {cs : List Char} (solid : ∀ c ∈ cs.head?, c ∉ blanks)
      (none : ∀ kind text, Kind.Derives kind text → ¬text <+: cs) : Segments p cs [] cs
  | blank {p : Position} {c : Char} {cs rest : List Char} {ts : List Token} (blank : c ∈ blanks)
      (after : Segments (p.next c) cs ts rest) : Segments p (c :: cs) ts rest
  | token {p : Position} {kind : Kind} {text cs rest : List Char} {ts : List Token}
      (longest : IsLongest kind text cs) (after : Segments (p.advance text) cs ts rest) :
      Segments p (text ++ cs) (⟨kind, String.ofList text, p⟩ :: ts) rest

/-- The tokens up to a place, or the first character of what is left there. -/
def ended (ts : List Token) (p : Position) : List Char → Except (Placed Char) Scanned
  | [] => .ok ⟨ts, p⟩
  | c :: _ => .error ⟨c, p⟩

theorem position_eq_of_ended {ts ts' : List Token} {p p' : Position} {rest rest' : List Char}
    (h : ended ts p rest = ended ts' p' rest') : p = p' := by
  cases rest <;> cases rest' <;> cases h <;> rfl

/-! Classes of characters -/

theorem isDigit_iff {c : Char} : c.isDigit = true ↔ IsDigit c := by
  simp [Char.isDigit, IsDigit, Char.le_def]

theorem isAlpha_iff {c : Char} : c.isAlpha = true ↔ IsLetter c := by
  have hupper : c.isUpper = true ↔ 'A' ≤ c ∧ c ≤ 'Z' := decide_eq_true_iff
  have hlower : c.isLower = true ↔ 'a' ≤ c ∧ c ≤ 'z' :=
    (Bool.and_eq_true_iff).trans (and_congr decide_eq_true_iff decide_eq_true_iff)
  have halpha : c.isAlpha = true ↔ c.isUpper = true ∨ c.isLower = true := Bool.or_eq_true_iff
  rw [halpha, hupper, hlower, IsLetter, or_comm]

theorem isIdentRest_iff {c : Char} :
    isIdentRest c = true ↔ IsLetter c ∨ IsDigit c ∨ c = '_' := by
  simp [isIdentRest, Char.isAlphanum, isAlpha_iff, isDigit_iff, or_assoc]

theorem isBlank_iff {c : Char} : isBlank c = true ↔ c ∈ blanks := by
  simp [isBlank, blanks, or_assoc]

theorem symbol?_eq_some_iff {c : Char} {kind : Kind} :
    symbol? c = some kind ↔ (c, kind) ∈ singles := by
  constructor
  · intro h
    unfold symbol? at h
    split at h <;> cases h <;> decide
  · intro h
    simp only [singles, List.mem_cons, Prod.mk.injEq, List.not_mem_nil, or_false] at h
    rcases h with ⟨rfl, rfl⟩ | ⟨rfl, rfl⟩ | ⟨rfl, rfl⟩ | ⟨rfl, rfl⟩ | ⟨rfl, rfl⟩ | ⟨rfl, rfl⟩ |
      ⟨rfl, rfl⟩ | ⟨rfl, rfl⟩ | ⟨rfl, rfl⟩ | ⟨rfl, rfl⟩ | ⟨rfl, rfl⟩ <;> rfl

/-! What is measured has the form of a token -/

theorem forall_isDigit_take_digitRun (cs : List Char) :
    ∀ c ∈ cs.take (digitRun cs), IsDigit c := by
  intro c hc
  rw [digitRun, take_length_takeWhile] at hc
  exact isDigit_iff.1 (List.mem_takeWhile_imp hc)

theorem take_digitRun_ne_nil {cs : List Char} (h : digitRun cs ≠ 0) :
    cs.take (digitRun cs) ≠ [] := by
  intro hnil
  rw [digitRun, take_length_takeWhile] at hnil
  exact h (by rw [digitRun, hnil, List.length_nil])

theorem isMantissa_take {cs : List Char} (h : mantissaLength cs ≠ 0) :
    IsMantissa (cs.take (mantissaLength cs)) := by
  unfold mantissaLength at h ⊢
  split at h
  · rename_i fraction hpoint
    split at h
    · exact absurd rfl h
    · rename_i hdigits
      have hrest : cs.drop (digitRun cs + 1) = fraction := by
        rw [← List.drop_drop, hpoint, List.drop_succ_cons, List.drop_zero]
      have htake : cs.take (digitRun cs + 1 + digitRun fraction) =
          cs.take (digitRun cs) ++ '.' :: fraction.take (digitRun fraction) := by
        rw [List.take_add, List.take_add, hpoint, hrest, List.take_succ_cons, List.take_zero,
          List.append_assoc, List.singleton_append]
      rw [if_neg hdigits, htake]
      by_cases hwhole : digitRun cs = 0
      · rw [hwhole, List.take_zero, List.nil_append]
        exact .point (take_digitRun_ne_nil fun hzero => hdigits ⟨hwhole, hzero⟩)
          (forall_isDigit_take_digitRun fraction)
      · exact .decimal (take_digitRun_ne_nil hwhole) (forall_isDigit_take_digitRun cs)
          (forall_isDigit_take_digitRun fraction)
  · exact .whole (take_digitRun_ne_nil h) (forall_isDigit_take_digitRun cs)

theorem take_signLength_mem (cs : List Char) : cs.take (signLength cs) ∈ [[], ['+'], ['-']] := by
  unfold signLength
  split <;> simp

theorem isExponent_take (cs : List Char) : IsExponent (cs.take (exponentLength cs)) := by
  unfold exponentLength
  split
  · rename_i c rest
    split
    · rename_i hmark
      split
      · exact .absent
      · rename_i hdigits
        rw [Nat.add_assoc, Nat.add_comm 1, List.take_succ_cons, List.take_add]
        exact .present (by simpa using hmark) (take_signLength_mem rest)
          (take_digitRun_ne_nil hdigits) (forall_isDigit_take_digitRun _)
    · exact .absent
  · exact .absent

theorem derives_number {cs : List Char} (h : 0 < numberLength cs) :
    Kind.number.Derives (cs.take (numberLength cs)) := by
  unfold numberLength at h ⊢
  split at h
  · exact absurd h (Nat.lt_irrefl 0)
  · rename_i hmantissa
    rw [if_neg hmantissa, List.take_add]
    exact .number (isMantissa_take hmantissa) (isExponent_take _)

theorem derives_ident {cs : List Char} (h : 0 < identLength cs) :
    Kind.ident.Derives (cs.take (identLength cs)) := by
  unfold identLength at h ⊢
  split at h
  · rename_i c rest
    split at h
    · rename_i hletter
      rw [if_pos hletter, Nat.add_comm, List.take_succ_cons, take_length_takeWhile]
      exact .ident (isAlpha_iff.1 hletter) fun d hd => isIdentRest_iff.1 (List.mem_takeWhile_imp hd)
    · exact absurd h (Nat.lt_irrefl 0)
  · exact absurd h (Nat.lt_irrefl 0)

theorem derives_symbol {cs : List Char} {kind : Kind} {n : Nat}
    (h : symbolAt? cs = some (kind, n)) : kind.Derives (cs.take n) := by
  unfold symbolAt? at h
  split at h
  · cases h
    exact .doubleSlash
  · rw [Option.map_eq_some_iff] at h
    obtain ⟨symbol, hsymbol, h⟩ := h
    cases h
    exact .single (symbol?_eq_some_iff.1 hsymbol)
  · cases h

theorem derives_of_tokenAt? {cs : List Char} {kind : Kind} {n : Nat}
    (h : tokenAt? cs = some (kind, n)) : kind.Derives (cs.take n) := by
  unfold tokenAt? at h
  split at h
  · rename_i hnumber
    cases h
    exact derives_number hnumber
  · split at h
    · rename_i hident
      cases h
      exact derives_ident hident
    · exact derives_symbol h

/-! Whatever has the form of a token is measured -/

theorem digitRun_append {ds : List Char} (h : ∀ c ∈ ds, IsDigit c) (rest : List Char) :
    digitRun (ds ++ rest) = ds.length + digitRun rest := by
  rw [digitRun, List.takeWhile_append_of_pos fun c hc => isDigit_iff.2 (h c hc),
    List.length_append, digitRun]

theorem digitRun_cons_of_not {c : Char} (h : c.isDigit = false) (cs : List Char) :
    digitRun (c :: cs) = 0 := by
  rw [digitRun, List.takeWhile_cons_of_neg (by simp [h]), List.length_nil]

/-- Digits on either side of a point, not both of them missing. -/
theorem mantissaLength_point {ds : List Char} (hds : ∀ c ∈ ds, IsDigit c) {rest : List Char}
    (h : ds ≠ [] ∨ digitRun rest ≠ 0) :
    mantissaLength (ds ++ '.' :: rest) = ds.length + 1 + digitRun rest := by
  have hrun : digitRun (ds ++ '.' :: rest) = ds.length := by
    rw [digitRun_append hds, digitRun_cons_of_not rfl, Nat.add_zero]
  unfold mantissaLength
  rw [hrun, List.drop_left]
  refine if_neg ?_
  rintro ⟨hlength, hzero⟩
  rcases h with h | h
  · exact h (List.length_eq_zero_iff.1 hlength)
  · exact h hzero

theorem le_mantissaLength {ms : List Char} (h : IsMantissa ms) (rest : List Char) :
    0 < ms.length ∧ ms.length ≤ mantissaLength (ms ++ rest) := by
  cases h with
  | whole nonempty digits =>
      refine ⟨List.length_pos_iff.2 nonempty, ?_⟩
      refine Nat.le_trans ?_ (digitRun_le_mantissaLength _)
      rw [digitRun_append digits]
      exact Nat.le_add_right _ _
  | @decimal ds fs nonempty digits fraction =>
      rw [List.append_assoc, List.cons_append, mantissaLength_point digits (.inl nonempty),
        digitRun_append fraction, List.length_append, List.length_cons]
      omega
  | @point fs nonempty fraction =>
      have hlength := List.length_pos_iff.2 nonempty
      have hrun : digitRun (fs ++ rest) ≠ 0 := by
        rw [digitRun_append fraction]
        omega
      have hpoint := mantissaLength_point (List.forall_mem_nil IsDigit) (.inr hrun)
      rw [List.nil_append] at hpoint
      rw [List.cons_append, hpoint, digitRun_append fraction, List.length_cons, List.length_nil]
      omega

/-- What is neither a digit nor a point does not continue a mantissa. -/
theorem mantissaLength_of_ends {ms : List Char} (h : IsMantissa ms) {c : Char}
    (hdigit : c.isDigit = false) (hpoint : c ≠ '.') (rest : List Char) :
    mantissaLength (ms ++ c :: rest) = ms.length := by
  cases h with
  | whole nonempty digits =>
      have hrun : digitRun (ms ++ c :: rest) = ms.length := by
        rw [digitRun_append digits, digitRun_cons_of_not hdigit, Nat.add_zero]
      unfold mantissaLength
      rw [hrun, List.drop_left]
      split
      · rename_i heq
        cases heq
        exact absurd rfl hpoint
      · rfl
  | @decimal ds fs nonempty digits fraction =>
      rw [List.append_assoc, List.cons_append, mantissaLength_point digits (.inl nonempty),
        digitRun_append fraction, digitRun_cons_of_not hdigit, List.length_append, List.length_cons]
      omega
  | @point fs nonempty fraction =>
      have hlength := List.length_pos_iff.2 nonempty
      have hrun : digitRun (fs ++ c :: rest) = fs.length := by
        rw [digitRun_append fraction, digitRun_cons_of_not hdigit, Nat.add_zero]
      have hnonzero : digitRun (fs ++ c :: rest) ≠ 0 := by omega
      have hpoint' := mantissaLength_point (List.forall_mem_nil IsDigit) (.inr hnonzero)
      rw [List.nil_append] at hpoint'
      rw [List.cons_append, hpoint', hrun, List.length_cons, List.length_nil]
      omega

theorem signLength_append {sign ds : List Char} (hsign : sign ∈ [[], ['+'], ['-']])
    (hne : ds ≠ []) (hds : ∀ c ∈ ds, IsDigit c) (rest : List Char) :
    signLength (sign ++ (ds ++ rest)) = sign.length := by
  simp only [List.mem_cons, List.not_mem_nil, or_false] at hsign
  rcases hsign with rfl | rfl | rfl
  · obtain ⟨d, ds, rfl⟩ := List.exists_cons_of_ne_nil hne
    have hd := isDigit_iff.2 (hds d List.mem_cons_self)
    unfold signLength
    split
    · rename_i heq
      cases heq
      cases hd
    · rename_i heq
      cases heq
      cases hd
    · rfl
  · rfl
  · rfl

theorem le_exponentLength {es : List Char} (h : IsExponent es) (rest : List Char) :
    es.length ≤ exponentLength (es ++ rest) := by
  cases h with
  | absent => exact Nat.zero_le _
  | @present mark sign ds mark_mem sign_mem nonempty digits =>
      have hmark : mark = 'e' ∨ mark = 'E' := by simpa using mark_mem
      have hlength := List.length_pos_iff.2 nonempty
      have hsign := signLength_append sign_mem nonempty digits rest
      have hrun : digitRun ((sign ++ (ds ++ rest)).drop sign.length) =
          ds.length + digitRun rest := by
        rw [List.drop_left, digitRun_append digits]
      rw [List.cons_append, List.append_assoc, exponentLength, if_pos hmark, hsign, hrun,
        if_neg (by omega), List.length_cons, List.length_append]
      omega

theorem le_numberLength {ms es : List Char} (hms : IsMantissa ms) (hes : IsExponent es)
    (rest : List Char) : (ms ++ es).length ≤ numberLength (ms ++ es ++ rest) := by
  rw [List.append_assoc]
  obtain ⟨hpos, hle⟩ := le_mantissaLength hms (es ++ rest)
  rw [numberLength, if_neg (by omega)]
  have hexponent := le_exponentLength hes rest
  cases hes with
  | absent =>
      rw [List.append_nil]
      omega
  | @present mark sign ds mark_mem sign_mem nonempty digits =>
      -- the mark ends the mantissa
      have hmark : mark = 'e' ∨ mark = 'E' := by simpa using mark_mem
      have hends : mark.isDigit = false ∧ mark ≠ '.' := by
        rcases hmark with rfl | rfl <;> exact ⟨rfl, by decide⟩
      rw [List.cons_append] at hexponent ⊢
      rw [mantissaLength_of_ends hms hends.1 hends.2, List.drop_left, List.length_append]
      omega

theorem le_identLength {c : Char} {cs : List Char} (hc : IsLetter c)
    (hcs : ∀ d ∈ cs, IsLetter d ∨ IsDigit d ∨ d = '_') (rest : List Char) :
    (c :: cs).length ≤ identLength (c :: (cs ++ rest)) := by
  rw [identLength, if_pos (isAlpha_iff.2 hc),
    List.takeWhile_append_of_pos fun d hd => isIdentRest_iff.2 (hcs d hd), List.length_append,
    List.length_cons]
  omega

/-- A text of a token at the front is no longer than the one that is measured. -/
theorem tokenAt?_of_derives {kind : Kind} {text : List Char} (h : kind.Derives text)
    (rest : List Char) :
    ∃ kind' n, tokenAt? (text ++ rest) = some (kind', n) ∧ text.length ≤ n ∧
      (text.length = n → kind' = kind) := by
  cases h with
  | @number mantissa exponent isMantissa isExponent =>
      have hle := le_numberLength isMantissa isExponent rest
      have hpos : 0 < numberLength (mantissa ++ exponent ++ rest) := by
        have := (le_mantissaLength isMantissa []).1
        rw [List.length_append] at hle
        omega
      exact ⟨_, _, if_pos hpos, hle, fun _ => rfl⟩
  | @ident c cs letter name =>
      obtain ⟨hdigit, hpoint⟩ := isDigit_of_isAlpha (isAlpha_iff.2 letter)
      have hle := le_identLength letter name rest
      have hnumber : ¬0 < numberLength (c :: cs ++ rest) := by
        rw [List.cons_append, numberLength_cons_eq_zero hdigit hpoint]
        exact Nat.lt_irrefl 0
      have hpos : 0 < identLength (c :: cs ++ rest) := by
        rw [List.length_cons] at hle
        exact Nat.lt_of_lt_of_le (Nat.succ_pos _) hle
      exact ⟨_, _, (if_neg hnumber).trans (if_pos hpos), hle, fun _ => rfl⟩
  | doubleSlash =>
      refine ⟨.doubleSlash, 2, ?_, Nat.le_refl 2, fun _ => rfl⟩
      rw [List.cons_append, tokenAt?, numberLength_cons_eq_zero rfl (by decide),
        identLength_cons_eq_zero rfl]
      rfl
  | @single c kind single =>
      have hsymbol := symbol?_eq_some_iff.2 single
      obtain ⟨hdigit, hpoint, hletter⟩ := symbol?_isSome hsymbol
      rw [List.singleton_append, tokenAt?, numberLength_cons_eq_zero hdigit hpoint,
        identLength_cons_eq_zero hletter, if_neg (Nat.lt_irrefl 0), if_neg (Nat.lt_irrefl 0)]
      unfold symbolAt?
      split
      · exact ⟨_, _, rfl, Nat.le_succ 1, fun h => absurd h (Nat.succ_ne_self 1).symm⟩
      · rename_i heq
        cases heq
        exact ⟨kind, 1, by rw [hsymbol]; rfl, Nat.le_refl 1, fun _ => rfl⟩
      · rename_i heq
        cases heq

/-- No text of a token at the front is longer than the length found there, and one of this length is
of the kind found. -/
theorem measured_of_tokenAt? {cs : List Char} {kind : Kind} {n : Nat}
    (h : tokenAt? cs = some (kind, n)) {kind' : Kind} {text : List Char}
    (hderives : kind'.Derives text) (hfront : text <+: cs) :
    text.length ≤ n ∧ (text.length = n → kind' = kind) := by
  obtain ⟨rest, rfl⟩ := hfront
  obtain ⟨kind'', n', hat, hle, honly⟩ := tokenAt?_of_derives hderives rest
  rw [h] at hat
  cases hat
  exact ⟨hle, fun heq => (honly heq).symm⟩

theorem isLongest_of_tokenAt? {cs : List Char} {kind : Kind} {n : Nat}
    (h : tokenAt? cs = some (kind, n)) : IsLongest kind (cs.take n) (cs.drop n) := by
  have hlength : (cs.take n).length = n := List.length_take_of_le (tokenAt?_le_length h)
  refine ⟨derives_of_tokenAt? h, ?_, ?_⟩
  · intro kind' text' hderives hfront
    rw [List.take_append_drop] at hfront
    refine List.prefix_of_prefix_length_le hfront (List.take_prefix n cs) ?_
    rw [hlength]
    exact (measured_of_tokenAt? h hderives hfront).1
  · intro kind' hderives
    exact (measured_of_tokenAt? h hderives (List.take_prefix n cs)).2 hlength

theorem IsLongest.tokenAt?_eq {kind : Kind} {text after : List Char}
    (h : IsLongest kind text after) : tokenAt? (text ++ after) = some (kind, text.length) := by
  obtain ⟨kind', n, hat, hle, honly⟩ := tokenAt?_of_derives h.derives after
  have hlonger := h.longest kind' _ (derives_of_tokenAt? hat) (List.take_prefix n _)
  have hlength : ((text ++ after).take n).length = n :=
    List.length_take_of_le (tokenAt?_le_length hat)
  have heq : text.length = n := Nat.le_antisymm hle (hlength ▸ hlonger.length_le)
  rw [hat, honly heq, heq]

theorem tokenAt?_eq_none_iff {cs : List Char} :
    tokenAt? cs = none ↔ ∀ kind text, Kind.Derives kind text → ¬text <+: cs := by
  constructor
  · rintro h kind text hderives ⟨rest, rfl⟩
    obtain ⟨_, _, hat, _⟩ := tokenAt?_of_derives hderives rest
    rw [h] at hat
    cases hat
  · intro h
    cases hat : tokenAt? cs with
    | none => rfl
    | some found =>
        obtain ⟨kind, n⟩ := found
        exact absurd (List.take_prefix n cs) (h kind _ (derives_of_tokenAt? hat))

/-! Cutting a text from the left -/

/-- A token has a first character, and it is no blank. -/
theorem IsLongest.head_not_blank {kind : Kind} {text after : List Char}
    (h : IsLongest kind text after) : ∃ c cs, text = c :: cs ∧ isBlank c = false := by
  have hat := h.tokenAt?_eq
  have hpos := tokenAt?_pos hat
  obtain ⟨c, cs, rfl⟩ := List.exists_cons_of_length_pos hpos
  exact ⟨c, cs, rfl, isBlank_of_tokenAt? hat⟩

/-- What follows a token may be cut off or exchanged for its first part. -/
theorem IsLongest.of_prefix {kind : Kind} {text after after' : List Char}
    (h : IsLongest kind text after) (hafter : after' <+: after) : IsLongest kind text after' where
  derives := h.derives
  longest := fun kind' text' hderives hfront =>
    h.longest kind' text' hderives (hfront.trans ((List.prefix_append_right_inj text).2 hafter))
  only := h.only

namespace Segments

variable {p : Position} {cs before rest : List Char} {ts : List Token}

theorem exists_before (h : Segments p cs ts rest) : ∃ before, cs = before ++ rest := by
  induction h with
  | stop _ _ => exact ⟨[], rfl⟩
  | @blank _ c _ _ _ _ _ ih =>
      obtain ⟨before, rfl⟩ := ih
      exact ⟨c :: before, rfl⟩
  | @token _ _ text _ _ _ _ _ ih =>
      obtain ⟨before, rfl⟩ := ih
      exact ⟨text ++ before, (List.append_assoc ..).symm⟩

/-- Every text is cut from the left. -/
theorem exists_segments (p : Position) (cs : List Char) : ∃ ts rest, Segments p cs ts rest := by
  induction hlength : cs.length using Nat.strongRecOn generalizing p cs with
  | _ n ih =>
      cases cs with
      | nil =>
          refine ⟨[], [], .stop (by simp) ?_⟩
          exact tokenAt?_eq_none_iff.1 rfl
      | cons c rest =>
          rw [List.length_cons] at hlength
          by_cases hblank : c ∈ blanks
          · obtain ⟨ts, rest', hrest⟩ := ih rest.length (by omega) (p.next c) rest rfl
            exact ⟨ts, rest', .blank hblank hrest⟩
          · cases hat : tokenAt? (c :: rest) with
            | none =>
                refine ⟨[], c :: rest, .stop ?_ (tokenAt?_eq_none_iff.1 hat)⟩
                intro d hd
                cases hd
                exact hblank
            | some found =>
                obtain ⟨kind, k⟩ := found
                have hlt : ((c :: rest).drop k).length < n := by
                  have := tokenAt?_pos hat
                  rw [List.length_drop, List.length_cons]
                  omega
                obtain ⟨ts, rest', hrest⟩ :=
                  ih _ hlt (p.advance ((c :: rest).take k)) _ rfl
                have htoken := Segments.token (isLongest_of_tokenAt? hat) hrest
                rw [List.take_append_drop] at htoken
                exact ⟨_, rest', htoken⟩

/-- The text before the rest is cut into the same tokens when nothing follows it. -/
theorem before_rest (h : Segments p cs ts rest) (hcs : cs = before ++ rest) :
    Segments p before ts [] := by
  induction h generalizing before with
  | @stop p cs _ _ =>
      obtain rfl : before = [] := by simpa using hcs
      exact .stop (by simp) (tokenAt?_eq_none_iff.1 rfl)
  | @blank p c cs rest ts hblank after ih =>
      obtain ⟨passed, rfl⟩ := after.exists_before
      rw [← List.cons_append] at hcs
      obtain rfl := List.append_cancel_right hcs
      exact .blank hblank (ih rfl)
  | @token p kind text cs rest ts longest after ih =>
      obtain ⟨passed, rfl⟩ := after.exists_before
      rw [← List.append_assoc] at hcs
      obtain rfl := List.append_cancel_right hcs
      exact .token (longest.of_prefix (List.prefix_append passed rest)) (ih rfl)

/-- Scanning cuts a text in this way, and fails at the rest if there is one. -/
theorem scanFrom_eq (h : Segments p cs ts rest) (hcs : cs = before ++ rest) :
    scanFrom p cs = ended ts (p.advance before) rest := by
  induction h generalizing before with
  | @stop p cs solid none =>
      obtain rfl : before = [] := by simpa using hcs
      cases cs with
      | nil => exact scanFrom_nil p
      | cons c cs =>
          have hblank : isBlank c = false := by
            rw [← Bool.not_eq_true, isBlank_iff]
            exact solid c rfl
          exact scanFrom_none p hblank (tokenAt?_eq_none_iff.2 none)
  | @blank p c cs rest ts hblank after ih =>
      obtain ⟨passed, rfl⟩ := after.exists_before
      rw [← List.cons_append] at hcs
      obtain rfl := List.append_cancel_right hcs
      rw [scanFrom_blank p _ (isBlank_iff.2 hblank), ih rfl]
      rfl
  | @token p kind text cs rest ts longest after ih =>
      obtain ⟨passed, rfl⟩ := after.exists_before
      rw [← List.append_assoc] at hcs
      obtain rfl := List.append_cancel_right hcs
      obtain ⟨c, others, rfl, hblank⟩ := longest.head_not_blank
      have hat := longest.tokenAt?_eq
      rw [List.cons_append] at hat
      have htake : (c :: (others ++ (passed ++ rest))).take (c :: others).length = c :: others :=
        @List.take_left _ (c :: others) _
      have hdrop : (c :: (others ++ (passed ++ rest))).drop (c :: others).length =
          passed ++ rest :=
        @List.drop_left _ (c :: others) _
      rw [List.cons_append, scanFrom_some p hblank hat, htake, hdrop, ih rfl,
        Position.advance_append]
      cases rest <;> rfl

/-- A text is cut in one way only. -/
theorem unique (h : Segments p cs ts rest) {ts' : List Token} {rest' : List Char}
    (h' : Segments p cs ts' rest') : ts' = ts ∧ rest' = rest := by
  obtain ⟨before, rfl⟩ := h.exists_before
  obtain ⟨before', hcs⟩ := h'.exists_before
  have hscan := h.scanFrom_eq rfl
  rw [h'.scanFrom_eq hcs] at hscan
  -- both end at the same place, since scanning ends or fails there
  have hoffset := congrArg Position.offset (position_eq_of_ended hscan)
  rw [Position.offset_advance, Position.offset_advance, Nat.add_left_cancel_iff] at hoffset
  obtain ⟨rfl, rfl⟩ := List.append_inj hcs hoffset.symm
  have hsame := (h'.before_rest rfl).scanFrom_eq (List.append_nil before).symm
  rw [(h.before_rest rfl).scanFrom_eq (List.append_nil before).symm] at hsame
  cases hsame
  exact ⟨rfl, rfl⟩

end Segments

end Lexer

/-! Sources -/

/-- Every source is cut from the left, in one way only, into blanks and the longest tokens, up to
its end or to the first character where none begins. Scanning returns these tokens if it reaches the
end. Otherwise it fails with a syntax error about that character, reported at the place behind the
text before it, and this text alone is scanned into the same tokens. -/
theorem scanSource_longest_match (source : String) :
    ∃ tokens before rest, source.toList = before ++ rest ∧
      Lexer.Segments .start source.toList tokens rest ∧
      (∀ tokens' rest', Lexer.Segments .start source.toList tokens' rest' →
        tokens' = tokens ∧ rest' = rest) ∧
      scanSource source =
        (match rest with
        | [] => .ok ⟨tokens, Position.start.advance before⟩
        | c :: _ => .error (.inSource source
            (unexpectedCharacter ⟨c, Position.start.advance before⟩))) ∧
      scanSource (String.ofList before) = .ok ⟨tokens, Position.start.advance before⟩ := by
  obtain ⟨tokens, rest, hsegments⟩ := Lexer.Segments.exists_segments .start source.toList
  obtain ⟨before, hbefore⟩ := hsegments.exists_before
  refine ⟨tokens, before, rest, hbefore, hsegments, fun _ _ => hsegments.unique, ?_, ?_⟩
  · rw [scanSource, scan, hsegments.scanFrom_eq hbefore]
    cases rest <;> rfl
  · have halone := (hsegments.before_rest hbefore).scanFrom_eq (List.append_nil before).symm
    rw [scanSource, scan, String.toList_ofList, halone]
    rfl

end FlightCurve

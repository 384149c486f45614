import FlightCurve.Proofs.LongestMatch
import FlightCurve.Proofs.Renaming.Reading

/-!
Renaming words where they stand. A name ends where it ended before, since what follows it could not
continue any name; and no token before it becomes longer, unless it is a number literal directly
before the name and takes the new name, or a part of it, for its exponent.
-/

namespace FlightCurve

/-- The characters from the offset `n` on, with a text written for each of the tokens. -/
def respell (write : Token → String) : Nat → List Char → List Token → List Char
  | _, cs, [] => cs
  | n, cs, tok :: ts =>
      cs.take (tok.position.offset - n) ++ ((write tok).toList ++
        respell write (tok.position.offset + tok.text.length)
          (cs.drop (tok.position.offset - n + tok.text.length)) ts)

/-- The source in which words are renamed where they stand. -/
def renameIn (name : String → String) (words : List (Placed String)) (source : String) : String :=
  match scan source with
  | .error _ => source
  | .ok s => String.ofList (respell (Token.renamedText name words) 0 source.toList s.tokens)

namespace Lexer

/-! What a letter ends -/

theorem isLetter_ne_point {c : Char} (h : IsLetter c) : ¬IsDigit c ∧ c ≠ '.' := by
  obtain ⟨hdigit, hpoint⟩ := isDigit_of_isAlpha (isAlpha_iff.2 h)
  refine ⟨fun h => ?_, hpoint⟩
  rw [isDigit_iff.2 h] at hdigit
  cases hdigit

theorem IsMantissa.not_isLetter {ms : List Char} (h : IsMantissa ms) : ∀ c ∈ ms, ¬IsLetter c := by
  intro c hc hletter
  obtain ⟨hdigit, hpoint⟩ := isLetter_ne_point hletter
  cases h with
  | whole _ digits => exact hdigit (digits c hc)
  | decimal _ digits fraction =>
      rw [List.mem_append, List.mem_cons] at hc
      rcases hc with hc | hc | hc
      · exact hdigit (digits c hc)
      · exact hpoint hc
      · exact hdigit (fraction c hc)
  | point _ fraction =>
      rw [List.mem_cons] at hc
      rcases hc with hc | hc
      · exact hpoint hc
      · exact hdigit (fraction c hc)

/-- A letter in a number literal is the mark of its exponent, and what stands before it is a number
literal too. -/
theorem IsMantissa.of_letter {ms es x more : List Char} {b : Char} (hms : IsMantissa ms)
    (hes : IsExponent es) (hb : IsLetter b) (h : ms ++ es = x ++ b :: more) :
    x = ms ∧ IsExponent (b :: more) := by
  rw [List.append_eq_append_iff] at h
  rcases h with ⟨between, rfl, hes'⟩ | ⟨between, rfl, hmore⟩
  · cases between with
    | nil =>
        rw [hes'] at hes
        exact ⟨List.append_nil ms, hes⟩
    | cons c between =>
        -- signs and digits are no letters
        cases hes with
        | absent => cases hes'
        | @present mark sign ds _ sign_mem _ digits =>
            obtain ⟨-, hrest⟩ := List.cons.inj hes'
            have hmem : b ∈ sign ++ ds := hrest ▸ List.mem_append_right _ List.mem_cons_self
            rcases List.mem_append.1 hmem with hsign | hdigit
            · simp only [List.mem_cons, List.not_mem_nil, or_false] at sign_mem
              rcases sign_mem with rfl | rfl | rfl
              · cases hsign
              · obtain rfl := List.mem_singleton.1 hsign
                exact absurd (isAlpha_iff.2 hb) (by decide)
              · obtain rfl := List.mem_singleton.1 hsign
                exact absurd (isAlpha_iff.2 hb) (by decide)
            · exact absurd (digits b hdigit) (isLetter_ne_point hb).1
  · cases between with
    | nil =>
        rw [List.nil_append] at hmore
        rw [← hmore] at hes
        exact ⟨(List.append_nil x).symm, hes⟩
    | cons c between =>
        obtain ⟨rfl, -⟩ := List.cons.inj hmore
        exact absurd hb (hms.not_isLetter _ (List.mem_append_right x List.mem_cons_self))

/-- Where a letter stands behind the beginning of a token, this is a number literal and the letter
the mark of its exponent, or any other letter would have continued it as well. -/
theorem derives_before_letter {kind : Kind} {x more : List Char} {b : Char}
    (h : kind.Derives (x ++ b :: more)) (hx : x ≠ []) (hb : IsLetter b) :
    (Kind.number.Derives x ∧ IsExponent (b :: more)) ∨
      ∀ a, IsLetter a → Kind.ident.Derives (x ++ [a]) := by
  generalize htext : x ++ b :: more = text at h
  cases h with
  | number isMantissa isExponent =>
      obtain ⟨rfl, hexponent⟩ := isMantissa.of_letter isExponent hb htext.symm
      exact .inl ⟨List.append_nil x ▸ .number isMantissa .absent, hexponent⟩
  | @ident c cs letter rest =>
      cases x with
      | nil => exact absurd rfl hx
      | cons d x =>
          obtain ⟨rfl, rfl⟩ := List.cons.inj htext
          refine .inr fun a ha => .ident letter fun e he => ?_
          rcases List.mem_append.1 he with he | he
          · exact rest e (List.mem_append_left _ he)
          · exact .inl (List.mem_singleton.1 he ▸ ha)
  | doubleSlash =>
      have hmem : b ∈ ['/', '/'] := htext ▸ List.mem_append_right x List.mem_cons_self
      obtain rfl : b = '/' := by simpa using hmem
      exact absurd (isAlpha_iff.2 hb) (by decide)
  | single _ =>
      have hone := congrArg List.length htext
      have hpos := List.length_pos_iff.2 hx
      simp only [List.length_append, List.length_cons, List.length_nil] at hone
      omega

/-- Whether a token ends within `x` does not depend on the letter after it, unless it is a number
literal that ends there and the letter is the mark of an exponent. -/
theorem tokenAt?_of_letter {x r r' : List Char} {a b : Char} {kind : Kind} {n : Nat}
    (h : tokenAt? (x ++ a :: r) = some (kind, n)) (hn : n ≤ x.length) (ha : IsLetter a)
    (hb : IsLetter b)
    (hjoin : kind = .number → n = x.length → ∀ es, es <+: r' → ¬IsExponent (b :: es)) :
    tokenAt? (x ++ b :: r') = some (kind, n) := by
  have hderives := derives_of_tokenAt? h
  have hpos := tokenAt?_pos h
  rw [List.take_append_of_le_length hn] at hderives
  obtain ⟨kind', m, hat, hle, hkind⟩ := tokenAt?_of_derives hderives (x.drop n ++ b :: r')
  rw [← List.append_assoc, List.take_append_drop] at hat
  rw [List.length_take_of_le hn] at hle hkind
  have hderives' := derives_of_tokenAt? hat
  by_cases hm : m ≤ x.length
  · rw [List.take_append_of_le_length hm] at hderives'
    obtain ⟨hmax, _⟩ := measured_of_tokenAt? h hderives'
      ((List.take_prefix m x).trans (List.prefix_append _ _))
    rw [List.length_take_of_le hm] at hmax
    obtain rfl := Nat.le_antisymm hle hmax
    rw [hat, hkind rfl]
  · -- a longer text would have been found in the first place, or is a literal with an exponent
    obtain ⟨more, hfront, hmore⟩ :
        ∃ more, more <+: r' ∧ (x ++ b :: r').take m = x ++ b :: more := by
      refine ⟨r'.take (m - x.length - 1), List.take_prefix _ r', ?_⟩
      rw [List.take_append, List.take_of_length_le (by omega),
        show m - x.length = (m - x.length - 1) + 1 by omega, List.take_succ_cons]
      rfl
    rw [hmore] at hderives'
    have hx : x ≠ [] := List.ne_nil_of_length_pos (by omega)
    rcases derives_before_letter hderives' hx hb with ⟨hnumber, hexponent⟩ | hident
    · obtain ⟨hmax, honly⟩ := measured_of_tokenAt? h hnumber (List.prefix_append x _)
      obtain rfl := Nat.le_antisymm hn hmax
      exact absurd hexponent (hjoin (honly rfl).symm rfl more hfront)
    · obtain ⟨hmax, _⟩ := measured_of_tokenAt? h (hident a ha) ⟨r, by simp⟩
      rw [List.length_append, List.length_singleton] at hmax
      omega

/-- A name ends where nothing continues it. -/
theorem tokenAt?_ident_append {name : String} (h : IsLexeme (.ident, name)) {rest : List Char}
    (hrest : ∀ c ∈ rest.head?, isIdentRest c = false) :
    tokenAt? (name.toList ++ rest) = some (.ident, name.toList.length) := by
  have hderives := derives_of_tokenAt? h
  rw [List.take_length] at hderives
  generalize name.toList = text at hderives ⊢
  cases hderives with
  | single single => simp [singles] at single
  | @ident c cs letter others =>
      have hrun : ((cs ++ rest).takeWhile isIdentRest).length = cs.length := by
        rw [List.takeWhile_append_of_pos fun d hd => isIdentRest_iff.2 (others d hd)]
        cases rest with
        | nil => simp
        | cons d rest => rw [List.takeWhile_cons_of_neg (by simp [hrest d rfl]), List.append_nil]
      have hlength : identLength (c :: (cs ++ rest)) = (c :: cs).length := by
        rw [identLength, if_pos (isAlpha_iff.2 letter), hrun, List.length_cons, Nat.add_comm]
      obtain ⟨hdigit, hpoint⟩ := isDigit_of_isAlpha (isAlpha_iff.2 letter)
      rw [List.cons_append, tokenAt?, numberLength_cons_eq_zero hdigit hpoint,
        if_neg (Nat.lt_irrefl 0), hlength]
      exact if_pos (Nat.succ_pos _)

/-- What stands behind a name continues no name. -/
theorem ident_ends {cs : List Char} {n : Nat} (h : tokenAt? cs = some (.ident, n)) :
    ∀ c ∈ (cs.drop n).head?, isIdentRest c = false := by
  intro c hc
  rw [← Bool.not_eq_true]
  intro hrest
  obtain ⟨others, hothers⟩ : ∃ others, cs.drop n = c :: others := by
    cases hdrop : cs.drop n with
    | nil =>
        rw [hdrop] at hc
        cases hc
    | cons d others =>
        rw [hdrop] at hc
        cases hc
        exact ⟨others, rfl⟩
  have hderives := derives_of_tokenAt? h
  have hlonger : Kind.ident.Derives (cs.take n ++ [c]) := by
    generalize cs.take n = text at hderives
    cases hderives with
    | single single => simp [singles] at single
    | ident letter others =>
        exact .ident letter (List.forall_mem_append.2
          ⟨others, List.forall_mem_singleton.2 (isIdentRest_iff.1 hrest)⟩)
  have hfront : cs.take n ++ [c] <+: cs :=
    ⟨others, by rw [List.append_assoc, List.singleton_append, ← hothers, List.take_append_drop]⟩
  obtain ⟨hmax, _⟩ := measured_of_tokenAt? h hlonger hfront
  rw [List.length_append, List.length_singleton, List.length_take_of_le (tokenAt?_le_length h)]
    at hmax
  omega

/-- A name begins with a letter. -/
theorem exists_letter {text : List Char} (h : Kind.ident.Derives text) :
    ∃ c cs, text = c :: cs ∧ IsLetter c := by
  cases h with
  | single single => simp [singles] at single
  | @ident c cs letter _ => exact ⟨c, cs, rfl, letter⟩

/-! Writing names anew -/

section Respell

variable {write : Token → String}

/-- The text of a token is kept, or a name is written for a name. -/
def Respells (write : Token → String) (tok : Token) : Prop :=
  write tok = tok.text ∨ tok.kind = .ident ∧ IsLexeme (.ident, write tok)

/-- The text begins with an exponent, such as `e5x`, or an exponent begins with it, such as `E`. -/
def LikeExponent (text : List Char) : Prop :=
  ∃ es, es ≠ [] ∧ IsExponent es ∧ (es <+: text ∨ text <+: es)

/-- A number literal stands directly before a name, and the new name is like an exponent. -/
structure MayJoin (write : Token → String) (tok next : Token) : Prop where
  number : tok.kind = .number
  touches : tok.position.offset + tok.text.length = next.position.offset
  anew : write next ≠ next.text
  exponent : LikeExponent (write next).toList

/-- Two texts at `p` are the same up to where, in the one, a name stands and, in the other, its new
name, if there is such a place. -/
def SameUpToName (write : Token → String) (p : Position) (ts : List Token) (cs cs' : List Char) :
    Prop :=
  cs' = cs ∨ ∃ q a r b r', cs = q ++ a :: r ∧ cs' = q ++ b :: r' ∧ IsLetter a ∧ IsLetter b ∧
    (q = [] → ∃ tok ∈ ts.head?, tok.position = p ∧ write tok ≠ tok.text ∧
      (write tok).toList <+: b :: r')

theorem respell_blank {p : Position} {c : Char} {rest : List Char} {s : Scanned}
    (h : Scans (p.next c) rest s) :
    respell write p.offset (c :: rest) s.tokens =
      c :: respell write (p.next c).offset rest s.tokens := by
  cases htokens : s.tokens with
  | nil => rfl
  | cons tok ts =>
      have hmem : tok ∈ s.withEof :=
        List.mem_append_left _ (htokens ▸ List.mem_cons_self)
      obtain ⟨before, _, _, hposition⟩ := h.text_eq tok hmem
      have hoffset : tok.position.offset - p.offset =
          tok.position.offset - (p.next c).offset + 1 := by
        rw [hposition, Position.offset_advance, Position.offset_next]
        omega
      rw [respell, respell, hoffset, List.take_succ_cons, List.cons_append, Nat.add_right_comm,
        List.drop_succ_cons]

theorem respell_token {p : Position} {cs : List Char} {kind : Kind} {n : Nat} (hn : n ≤ cs.length)
    (ts : List Token) :
    respell write p.offset cs (⟨kind, String.ofList (cs.take n), p⟩ :: ts) =
      (write ⟨kind, String.ofList (cs.take n), p⟩).toList ++
        respell write (p.advance (cs.take n)).offset (cs.drop n) ts := by
  have hlength : (String.ofList (cs.take n)).length = n := by
    rw [← String.length_toList, String.toList_ofList, List.length_take_of_le hn]
  have hoffset : (p.advance (cs.take n)).offset = p.offset + n := by
    rw [Position.offset_advance, List.length_take_of_le hn]
  rw [respell, hlength, hoffset]
  simp only [Nat.sub_self, List.take_zero, List.nil_append, Nat.zero_add]

theorem Scans.sameUpToName {p : Position} {cs : List Char} {s : Scanned} (h : Scans p cs s)
    (hwrite : ∀ tok ∈ s.tokens, Respells write tok) :
    SameUpToName write p s.tokens cs (respell write p.offset cs s.tokens) := by
  induction h with
  | nil p => exact .inl rfl
  | @blank p c rest s _ after ih =>
      rw [respell_blank after]
      rcases ih hwrite with heq | ⟨q, a, r, b, r', hcs, hcs', ha, hb, _⟩
      · exact .inl (by rw [heq])
      · exact .inr ⟨c :: q, a, r, b, r', by rw [hcs]; rfl, by rw [hcs']; rfl, ha, hb, by simp⟩
  | @token p c rest s kind n _ longest _ ih =>
      have hle := tokenAt?_le_length longest
      have htext : (c :: rest).take n ≠ [] := by
        have := tokenAt?_pos longest
        simp [List.take_eq_nil_iff]
        omega
      rw [List.forall_mem_cons] at hwrite
      rw [respell_token hle]
      by_cases hkept : write ⟨kind, String.ofList ((c :: rest).take n), p⟩ =
          String.ofList ((c :: rest).take n)
      · rw [hkept, String.toList_ofList]
        rcases ih hwrite.2 with heq | ⟨q, a, r, b, r', hcs, hcs', ha, hb, _⟩
        · rw [heq]
          exact .inl (List.take_append_drop n _)
        · refine .inr ⟨(c :: rest).take n ++ q, a, r, b, r', ?_, ?_, ha, hb, ?_⟩
          · rw [List.append_assoc, ← hcs, List.take_append_drop]
          · rw [List.append_assoc, hcs']
          · intro hnil
            exact absurd (List.append_eq_nil_iff.1 hnil).1 htext
      · rcases hwrite.1 with hsame | ⟨hident, hname⟩
        · exact absurd hsame hkept
        · obtain rfl : kind = .ident := hident
          have hderives := derives_of_tokenAt? hname
          rw [List.take_length] at hderives
          obtain ⟨a, as, hold, ha⟩ := exists_letter (derives_of_tokenAt? longest)
          obtain ⟨b, bs, hnew, hb⟩ := exists_letter hderives
          have hsplit := List.take_append_drop n (c :: rest)
          rw [hold] at hsplit
          refine .inr ⟨[], a, as ++ (c :: rest).drop n, b, bs ++ _, hsplit.symm,
            congrArg (· ++ _) hnew, ha, hb, fun _ => ⟨_, rfl, rfl, hkept, ?_⟩⟩
          rw [hnew]
          exact List.prefix_append (b :: bs) _

/-- The new text of the first token is the longest token in its place. -/
theorem Scans.tokenAt?_respell {p : Position} {cs : List Char} {s : Scanned} {kind : Kind} {n : Nat}
    (longest : tokenAt? cs = some (kind, n))
    (after : Scans (p.advance (cs.take n)) (cs.drop n) s) {tok : Token}
    (htok : tok = ⟨kind, String.ofList (cs.take n), p⟩)
    (hwrite : ∀ tok' ∈ tok :: s.tokens, Respells write tok')
    (hjoin : ∀ next ∈ s.tokens, ¬MayJoin write tok next) :
    tokenAt? ((write tok).toList ++
      respell write (p.advance (cs.take n)).offset (cs.drop n) s.tokens) =
        some (kind, (write tok).toList.length) := by
  have hle := tokenAt?_le_length longest
  rw [List.forall_mem_cons] at hwrite
  have hsame := after.sameUpToName hwrite.2
  generalize respell write (p.advance (cs.take n)).offset (cs.drop n) s.tokens = rest' at hsame ⊢
  rcases hwrite.1 with hkept | ⟨hident, hname⟩
  · rw [hkept, htok, String.toList_ofList, List.length_take_of_le hle]
    rcases hsame with heq | ⟨q, a, r, b, r', hcs, hcs', ha, hb, hfirst⟩
    · rw [heq, List.take_append_drop]
      exact longest
    · have hold : tokenAt? ((cs.take n ++ q) ++ a :: r) = some (kind, n) := by
        rw [List.append_assoc, ← hcs, List.take_append_drop]
        exact longest
      have hlength : (cs.take n ++ q).length = n + q.length := by
        rw [List.length_append, List.length_take_of_le hle]
      rw [hcs', ← List.append_assoc]
      refine tokenAt?_of_letter hold (by omega) ha hb fun hnumber hn es hes hexponent => ?_
      -- the new name stands directly behind the number literal
      obtain ⟨next, hnext, hposition, hanew, hname⟩ :=
        hfirst (List.length_eq_zero_iff.1 (by omega))
      refine hjoin next (List.mem_of_mem_head? hnext) ⟨by rw [htok]; exact hnumber, ?_, hanew, ?_⟩
      · rw [htok, hposition, Position.offset_advance, ← String.length_toList,
          String.toList_ofList]
      · have hfront : b :: es <+: b :: r' := (List.prefix_cons_inj b).2 hes
        exact ⟨b :: es, List.cons_ne_nil b es, hexponent,
          List.prefix_or_prefix_of_prefix hfront hname⟩
  · obtain rfl : kind = .ident := by rwa [htok] at hident
    refine tokenAt?_ident_append hname ?_
    have hends := ident_ends longest
    rcases hsame with heq | ⟨q, a, r, b, r', hcs, hcs', ha, _, _⟩
    · rwa [heq]
    · cases q with
      | nil =>
          have hletter := hends a (by rw [hcs]; rfl)
          rw [isIdentRest_iff.2 (.inl ha)] at hletter
          cases hletter
      | cons d q =>
          rw [hcs']
          rw [hcs] at hends
          exact hends

/-- Texts of tokens with names written anew are cut into tokens with these names. -/
theorem Scans.scanFrom_respell {p : Position} {cs : List Char} {s : Scanned} (h : Scans p cs s)
    (hwrite : ∀ tok ∈ s.tokens, Respells write tok)
    (hjoin : ∀ tok ∈ s.tokens, ∀ next ∈ s.tokens, ¬MayJoin write tok next) (p' : Position) :
    ∃ s', scanFrom p' (respell write p.offset cs s.tokens) = .ok s' ∧
      s'.tokens.map Token.lexeme = s.tokens.map fun tok => (tok.kind, write tok) := by
  induction h generalizing p' with
  | nil p => exact ⟨_, scanFrom_nil p', rfl⟩
  | @blank p c rest s hblank after ih =>
      rw [respell_blank after, scanFrom_blank _ _ hblank]
      exact ih hwrite hjoin _
  | @token p c rest s kind n hblank longest after ih =>
      have hat := after.tokenAt?_respell longest rfl hwrite fun next hnext =>
        hjoin _ List.mem_cons_self next (List.mem_cons_of_mem _ hnext)
      rw [respell_token (tokenAt?_le_length longest)]
      generalize hnew : write ⟨kind, String.ofList ((c :: rest).take n), p⟩ = new at hat ⊢
      obtain ⟨s', hs', hlexemes⟩ := ih
        (fun tok htok => hwrite tok (List.mem_cons_of_mem _ htok))
        (fun tok htok next hnext => hjoin tok (List.mem_cons_of_mem _ htok) next
          (List.mem_cons_of_mem _ hnext)) (p'.advance new.toList)
      rw [scanFrom_text hat, hs']
      refine ⟨_, rfl, ?_⟩
      rw [List.map_cons, List.map_cons, hlexemes, hnew]
      rfl

end Respell

end Lexer

end FlightCurve

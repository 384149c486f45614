import Mathlib.Data.List.Nodup
import FlightCurve.Compilation
import FlightCurve.Proofs.Places
import FlightCurve.Proofs.Writing

/-!
The first fault of a source. Tokens can be continued if some accepted source begins with what they
say. A source that is rejected has its first fault at the token where this ends: the tokens before
it can be continued, and together with it they cannot. The end of a source is a token here, so a
fault at the end says that the tokens before it are not accepted as they are.

Where a grammar for the tokens that count decides which sources are accepted, it is enough to know
which sequences of tokens the grammar derives.
-/

namespace FlightCurve

/-! Where an error is reported -/

/-- The error is reported at a token of the source or at its end: it has the line and the column of
this token and of no other one. -/
structure CompileError.ReportedAt (e : CompileError) (source : String) (s : Scanned)
    (tok : Token) : Prop where
  mem : tok ∈ s.withEof
  place : e.place = .ofPosition source tok.position
  only : ∀ other ∈ s.withEof, e.place.line = other.position.line →
    e.place.column = other.position.column → other = tok

theorem CompileError.reportedAt_inSource {source : String} {s : Scanned} (h : scan source = .ok s)
    {tok : Token} (htok : tok ∈ s.withEof) (cause : Cause) :
    (inSource source ⟨cause, tok.position⟩).ReportedAt source s tok where
  mem := htok
  place := rfl
  only := by
    intro other hother hline hcolumn
    exact eq_of_line_column h hother htok (Int.ofNat_inj.1 hline).symm (Int.ofNat_inj.1 hcolumn).symm

/-- The token before which a reader is stuck is the next one, or the end. -/
theorem Scanned.append_eof (s : Scanned) (rest : List Token) :
    ∃ after, rest ++ [Token.eof s.finish] = s.current rest :: after := by
  cases rest with
  | nil => exact ⟨[], rfl⟩
  | cons tok rest => exact ⟨rest ++ [Token.eof s.finish], rfl⟩

/-! Continuing tokens -/

section FirstFaults

variable (count : List Token → List Token) (Accepted : String → Prop)

/-- The error is a syntax error about the token `tok`, which stands behind `before` among the tokens
that count, and is reported there. -/
structure CompileError.Blames (e : CompileError) (source : String) (s : Scanned)
    (before : List Token) (tok : Token) : Prop where
  stands : ∃ after, count s.withEof = before ++ tok :: after
  malformed : ∃ reason : Reason, e.cause = .malformed (some (reason.detail tok))
  reported : e.ReportedAt source s tok

/-- Some accepted source begins with what the tokens say. Of its tokens, the end among them, those
that `count` leaves are meant. -/
def CanBeContinued (ts : List Token) : Prop :=
  ∃ source s, scan source = .ok s ∧ Accepted source ∧
    ts.map Token.lexeme <+: (count s.withEof).map Token.lexeme

/-- The tokens before `tok` can be continued, and with `tok` they cannot. -/
structure IsFirstFault (before : List Token) (tok : Token) : Prop where
  continued : CanBeContinued count Accepted before
  ends : ¬CanBeContinued count Accepted (before ++ [tok])

/-- Behind `taken` the grammar goes on, but not with what `rest` begins with: with its first token,
or with nothing. -/
structure FaultBehind (Accepts : List Token → Prop) (taken rest : List Token) : Prop where
  continued : ∃ more, (∀ tok ∈ more, tok.IsWritten) ∧ Accepts (taken ++ more)
  refused : ∀ rest' : List Token, (∀ tok ∈ rest', tok.IsWritten) → rest'.head? = rest.head? →
    ¬Accepts (taken ++ rest')

/-- Which sources are accepted is decided by a grammar for the tokens that count, wherever these
stand. -/
structure DecidedBy (Accepts : List Token → Prop) : Prop where
  accepted_iff : ∀ {source s}, scan source = .ok s → (Accepted source ↔ Accepts (count s.tokens))
  of_lexemes : ∀ {ts us}, Accepts ts → us.map Token.lexeme = ts.map Token.lexeme → Accepts us
  count_eq : ∀ {ts}, Accepts ts → count ts = ts
  count_sublist : ∀ ts, (count ts).Sublist ts
  count_lexemes : ∀ {ts us : List Token}, us.map Token.lexeme = ts.map Token.lexeme →
    (count us).map Token.lexeme = (count ts).map Token.lexeme
  count_eof : ∀ ts p, count (ts ++ [Token.eof p]) = count ts ++ [Token.eof p]

end FirstFaults

namespace DecidedBy

variable {count : List Token → List Token} {Accepted : String → Prop}
  {Accepts : List Token → Prop} {ts : List Token}

theorem withEof (h : DecidedBy count Accepted Accepts) (s : Scanned) :
    count s.withEof = count s.tokens ++ [Token.eof s.finish] :=
  h.count_eof s.tokens s.finish

/-- Accepted tokens that are written are those of an accepted source. -/
theorem exists_source (h : DecidedBy count Accepted Accepts) (hts : ∀ tok ∈ ts, tok.IsWritten)
    (haccepts : Accepts ts) :
    ∃ source s, scan source = .ok s ∧ Accepted source ∧
      (count s.tokens).map Token.lexeme = ts.map Token.lexeme := by
  obtain ⟨source, s, hs, hlexemes⟩ := exists_scan hts
  have hcount : (count s.tokens).map Token.lexeme = ts.map Token.lexeme := by
    rw [h.count_lexemes hlexemes, h.count_eq haccepts]
  exact ⟨source, s, hs, (h.accepted_iff hs).2 (h.of_lexemes haccepts hcount), hcount⟩

/-- Tokens without the end can be continued if the grammar derives them with others after them. -/
theorem canBeContinued_iff (h : DecidedBy count Accepted Accepts)
    (hts : ∀ tok ∈ ts, tok.IsWritten) :
    CanBeContinued count Accepted ts ↔
      ∃ more, (∀ tok ∈ more, tok.IsWritten) ∧ Accepts (ts ++ more) := by
  constructor
  · rintro ⟨source, s, hs, haccepted, hprefix⟩
    rw [h.withEof, List.map_append, List.map_singleton, List.prefix_concat_iff] at hprefix
    rcases hprefix with hall | ⟨others, hothers⟩
    · -- the end of a source is not written
      have hend : (Token.eof s.finish).lexeme ∈ ts.map Token.lexeme := by
        rw [hall]
        exact List.mem_append_right _ List.mem_cons_self
      obtain ⟨tok, htok, hlexeme⟩ := List.mem_map.1 hend
      exact absurd (congrArg Prod.fst hlexeme) (hts tok htok).kind_ne_eof
    · obtain ⟨us, more, hcount, hus, _⟩ := List.map_eq_append_iff.1 hothers.symm
      have haccepts := (h.accepted_iff hs).1 haccepted
      rw [hcount] at haccepts
      refine ⟨more, fun tok htok => isWritten_of_scan hs tok ?_, h.of_lexemes haccepts ?_⟩
      · exact (h.count_sublist s.tokens).mem (hcount ▸ List.mem_append_right us htok)
      · rw [List.map_append, List.map_append, hus]
  · rintro ⟨more, hmore, haccepts⟩
    obtain ⟨source, s, hs, haccepted, hcount⟩ :=
      h.exists_source (List.forall_mem_append.2 ⟨hts, hmore⟩) haccepts
    refine ⟨source, s, hs, haccepted, ?_⟩
    rw [h.withEof, List.map_append, hcount, List.map_append, List.append_assoc]
    exact List.prefix_append _ _

/-- Tokens with the end after them can be continued if the grammar derives them as they are. -/
theorem canBeContinued_eof_iff (h : DecidedBy count Accepted Accepts)
    (hts : ∀ tok ∈ ts, tok.IsWritten) (p : Position) :
    CanBeContinued count Accepted (ts ++ [Token.eof p]) ↔ Accepts ts := by
  constructor
  · rintro ⟨source, s, hs, haccepted, hprefix⟩
    rw [h.withEof, List.map_append, List.map_append, List.map_singleton, List.map_singleton,
      List.prefix_concat_iff] at hprefix
    rcases hprefix with hall | hbefore
    · exact h.of_lexemes ((h.accepted_iff hs).1 haccepted) (List.append_cancel_right hall)
    · -- the end of a source is none of its tokens
      have hend : (Token.eof p).lexeme ∈ (count s.tokens).map Token.lexeme :=
        hbefore.mem (List.mem_append_right _ List.mem_cons_self)
      obtain ⟨tok, htok, hlexeme⟩ := List.mem_map.1 hend
      exact absurd (congrArg Prod.fst hlexeme)
        (kind_ne_eof_of_scan hs tok ((h.count_sublist s.tokens).mem htok))
  · intro haccepts
    obtain ⟨source, s, hs, haccepted, hcount⟩ := h.exists_source hts haccepts
    refine ⟨source, s, hs, haccepted, ?_⟩
    rw [h.withEof, List.map_append, List.map_append, hcount]
    exact List.prefix_refl _

/-- The error of a reader that is stuck behind the tokens taken blames the next one. -/
theorem blames (h : DecidedBy count Accepted Accepts) {source : String} {s : Scanned}
    (hs : scan source = .ok s) {taken : List Token} {stuck : Stuck}
    (hinput : count s.tokens = taken ++ stuck.rest) :
    (CompileError.inSource source (stuck.fault s)).Blames count source s taken
      (s.current stuck.rest) := by
  obtain ⟨after, hafter⟩ := s.append_eof stuck.rest
  have hstands : count s.withEof = taken ++ s.current stuck.rest :: after := by
    rw [h.withEof, hinput, List.append_assoc, hafter]
  refine ⟨⟨after, hstands⟩, ⟨stuck.reason, rfl⟩, CompileError.reportedAt_inSource hs ?_ _⟩
  exact (h.count_sublist s.withEof).mem (hstands ▸ List.mem_append_right taken List.mem_cons_self)

/-- An error blames one token. -/
theorem blames_unique (h : DecidedBy count Accepted Accepts) {source : String} {s : Scanned}
    (hs : scan source = .ok s) {e : CompileError} {before before' : List Token} {tok tok' : Token}
    (hblames : e.Blames count source s before tok) (hblames' : e.Blames count source s before' tok') :
    before' = before ∧ tok' = tok := by
  have hplace := hblames'.reported.place
  obtain rfl : tok' = tok :=
    hblames.reported.only tok' hblames'.reported.mem (by rw [hplace]; rfl) (by rw [hplace]; rfl)
  obtain ⟨after, hstands⟩ := hblames.stands
  obtain ⟨after', hstands'⟩ := hblames'.stands
  have hnodup := (h.count_sublist s.withEof).nodup (nodup_of_scan hs)
  rw [hstands, List.nodup_middle, List.nodup_cons, List.mem_append, not_or] at hnodup
  have heq := hstands.symm.trans hstands'
  rw [List.append_cons_inj_of_notMem hnodup.1.1 hnodup.1.2] at heq
  exact ⟨heq.1.symm, rfl⟩

/-- The fault of the grammar behind the tokens taken is the first one of the source. -/
theorem isFirstFault (h : DecidedBy count Accepted Accepts) (s : Scanned) {taken rest : List Token}
    (hwritten : ∀ tok ∈ taken ++ rest, tok.IsWritten) (hfault : FaultBehind Accepts taken rest) :
    IsFirstFault count Accepted taken (s.current rest) := by
  rw [List.forall_mem_append] at hwritten
  obtain ⟨htaken, hrest⟩ := hwritten
  refine ⟨(h.canBeContinued_iff htaken).2 hfault.continued, ?_⟩
  cases rest with
  | nil =>
      change ¬CanBeContinued count Accepted (taken ++ [Token.eof s.finish])
      rw [h.canBeContinued_eof_iff htaken, ← List.append_nil taken]
      exact hfault.refused [] (List.forall_mem_nil _) rfl
  | cons tok after =>
      have htok := List.forall_mem_singleton.2 (hrest tok List.mem_cons_self)
      change ¬CanBeContinued count Accepted (taken ++ [tok])
      rw [h.canBeContinued_iff (List.forall_mem_append.2 ⟨htaken, htok⟩)]
      rintro ⟨more, hmore, haccepts⟩
      rw [List.append_assoc] at haccepts
      exact hfault.refused _ (List.forall_mem_append.2 ⟨htok, hmore⟩) rfl haccepts

end DecidedBy

end FlightCurve

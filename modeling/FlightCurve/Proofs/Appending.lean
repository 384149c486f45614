import FlightCurve.Proofs.LongestMatch
import FlightCurve.Proofs.Naming
import FlightCurve.Proofs.Nesting

/-!
Appending lines to a where clause. No token but the line feed itself reaches across the end of a
line, the parentheses of an accepted clause are closed at its end, and the scope only grows; so what
follows a clause in another line cannot change what was read before.

The main statement is that the assignments and names of a clause stay the first ones when lines are
appended, and that whatever is wrong then is wrong in these lines.
-/

namespace FlightCurve

/-! Tokens before a line feed -/

namespace Lexer

/-- A token that ends before a line feed is the longest one whatever follows the line feed. -/
theorem tokenAt?_append_newline {cs : List Char} {kind : Kind} {n : Nat}
    (h : tokenAt? cs = some (kind, n)) (ds : List Char) :
    tokenAt? (cs ++ '\n' :: ds) = some (kind, n) := by
  have hlength := tokenAt?_le_length h
  have hpos := tokenAt?_pos h
  have hderives := derives_of_tokenAt? h
  obtain ⟨kind', m, hat, hle, hkind⟩ := tokenAt?_of_derives hderives (cs.drop n ++ '\n' :: ds)
  rw [← List.append_assoc, List.take_append_drop, List.length_take_of_le hlength] at *
  by_cases hm : m ≤ cs.length
  · -- a token that does not reach the line feed stood there before
    have hlonger := derives_of_tokenAt? hat
    rw [List.take_append_of_le_length hm] at hlonger
    obtain ⟨hmax, _⟩ := measured_of_tokenAt? h hlonger (List.take_prefix m cs)
    rw [List.length_take_of_le hm] at hmax
    obtain rfl := Nat.le_antisymm hle hmax
    rw [hat, hkind rfl]
  · have hmem : '\n' ∈ (cs ++ '\n' :: ds).take m := by
      rw [List.take_append, List.mem_append]
      refine .inr ?_
      rw [show m - cs.length = (m - cs.length - 1) + 1 by omega, List.take_succ_cons]
      exact List.mem_cons_self
    obtain ⟨htake, _⟩ := eq_single_of_mem hat hmem (by decide) (by decide) (by decide)
    have hone := congrArg List.length htake
    rw [List.length_take_of_le (tokenAt?_le_length hat), List.length_singleton] at hone
    omega

theorem tokenAt?_newline (cs : List Char) : tokenAt? ('\n' :: cs) = some (.newline, 1) := by
  rw [tokenAt?, numberLength_cons_eq_zero rfl (by decide), identLength_cons_eq_zero rfl]
  rfl

theorem scanFrom_newline (p : Position) (cs : List Char) :
    scanFrom p ('\n' :: cs) = (do
      let after ← scanFrom (p.next '\n') cs
      .ok ⟨⟨.newline, "\n", p⟩ :: after.tokens, after.finish⟩) :=
  scanFrom_some p rfl (tokenAt?_newline cs)

/-- What is scanned stays so when a line feed and other characters follow it. -/
theorem Scans.scanFrom_append {p : Position} {cs : List Char} {s : Scanned} (h : Scans p cs s)
    (ds : List Char) :
    scanFrom p (cs ++ '\n' :: ds) = (do
      let after ← scanFrom s.finish ('\n' :: ds)
      .ok ⟨s.tokens ++ after.tokens, after.finish⟩) := by
  induction h with
  | nil p => cases hscan : scanFrom p ('\n' :: ds) <;> simp [hscan] <;> rfl
  | blank hblank _ ih => rw [List.cons_append, scanFrom_blank _ _ hblank, ih]
  | @token p c rest s kind n hblank longest _ ih =>
      have hat := tokenAt?_append_newline longest ds
      have hle := tokenAt?_le_length longest
      rw [List.cons_append] at hat ⊢
      rw [scanFrom_some p hblank hat, ← List.cons_append, List.take_append_of_le_length hle,
        List.drop_append_of_le_length hle, ih]
      cases scanFrom s.finish ('\n' :: ds) <;> rfl

end Lexer

/-- The tokens of a text in two parts, between which a line ends. -/
theorem scan_append_line {first : String} {s : Scanned} (h : scan first = .ok s) (more : String) :
    scan (first ++ "\n" ++ more) = (do
      let after ← Lexer.scanFrom (s.finish.next '\n') more.toList
      .ok ⟨s.tokens ++ ⟨.newline, "\n", s.finish⟩ :: after.tokens, after.finish⟩) := by
  have hsource : (first ++ "\n" ++ more).toList = first.toList ++ '\n' :: more.toList := by
    simp
  rw [scan, hsource, (Lexer.scans_of_scanFrom h).scanFrom_append, Lexer.scanFrom_newline]
  cases Lexer.scanFrom (s.finish.next '\n') more.toList <;> rfl

/-! Assignments before a separator -/

theorem openAfter_significant (k n : Nat) (ts : List Token) :
    openAfter n (significant k ts) = openAfter n ts := by
  induction ts generalizing k n with
  | nil => rfl
  | cons tok ts ih =>
      rw [significant_cons]
      split
      · rename_i hblank
        have hsame : tok.openAfter n = n := by rw [Token.openAfter, hblank.1]
        rw [ih]
        change _ = openAfter (tok.openAfter n) ts
        rw [hsame]
      · exact ih _ (tok.openAfter n)

/-- After a clause no parenthesis is open, so it has no say in which line feeds after it count. -/
theorem IsClause.significant_append {all : List AssignmentTokens} {ts : List Token}
    (h : IsClause all (significant 0 ts)) (us : List Token) :
    significant 0 (ts ++ us) = significant 0 ts ++ significant 0 us := by
  obtain ⟨k, _, hnests⟩ := h.nestsTo
  have hclosed := (hnests 0).1
  rw [openAfter_significant] at hclosed
  rw [FlightCurve.significant_append, hclosed]

/-- Where an assignment stands, not all is line feeds. -/
theorem SeparatedAssignments.exists_ne_newline {all : List AssignmentTokens} {ts : List Token}
    (h : SeparatedAssignments all ts) (hall : all ≠ []) : ∃ tok ∈ ts, tok.kind ≠ .newline := by
  cases h with
  | empty _ => exact absurd rfl hall
  | @first seps rest a _ _ valid _ =>
      refine ⟨a.target, ?_, by simp [valid.ident]⟩
      rw [AssignmentTokens.all]
      simp

namespace Reader

/-- Whether a leading `where` is dropped is decided before the first assignment ends. -/
theorem dropWhere_append {all : List AssignmentTokens} {ts : List Token} (h : IsClause all ts)
    (hall : all ≠ []) (us : List Token) : dropWhere (ts ++ us) = dropWhere ts ++ us := by
  rw [isClause_iff] at h
  cases ts with
  | nil =>
      obtain ⟨tok, htok, _⟩ := h.exists_ne_newline hall
      cases htok
  | cons word after =>
      rw [dropWhere] at h
      rw [List.cons_append, dropWhere, dropWhere]
      cases hfind : after.find? (·.kind ≠ .newline) with
      | some tok =>
          have happend : (after ++ us).find? (·.kind ≠ .newline) = some tok := by
            rw [List.find?_append, hfind]
            rfl
          rw [happend]
          split <;> rfl
      | none =>
          -- no assignment stands behind the word, so it is not the keyword
          have hnot : ¬(word.kind = .ident ∧ word.text = whereKeyword) := by
            rintro ⟨hident, hkeyword⟩
            rw [if_pos ⟨hident, hkeyword, by rw [hfind]; simp⟩] at h
            obtain ⟨tok, htok, hkind⟩ := h.exists_ne_newline hall
            exact List.find?_eq_none.1 hfind tok htok (by simpa using hkind)
          rw [if_neg fun hwhere => hnot ⟨hwhere.1, hwhere.2.1⟩,
            if_neg fun hwhere => hnot ⟨hwhere.1, hwhere.2.1⟩, List.cons_append]

theorem assignments_append_of_separates {seps : List Token} (h : ∀ tok ∈ seps, tok.Separates)
    (ts : List Token) : assignments (seps ++ ts) = assignments ts := by
  have hdrop : (seps ++ ts).dropWhile isSeparator = ts.dropWhile isSeparator :=
    List.dropWhile_append_of_pos fun tok htok => isSeparator_iff.2 (h tok htok)
  cases hfirst : ts.dropWhile isSeparator with
  | nil => rw [assignments_of_separators hfirst, assignments_of_separators (hdrop.trans hfirst)]
  | cons tok more =>
      rw [assignments_of_assignment hfirst, assignments_of_assignment (hdrop.trans hfirst)]

/-- Behind assignments and a separator reading begins anew. -/
theorem assignments_append_separator {all : List AssignmentTokens} {ts : List Token}
    (hall : SeparatedAssignments all ts) {as : List Assignment}
    (hfits : List.Forall₂ Assignment.Fits as all) {sep : Token} (hsep : sep.Separates)
    (us : List Token) :
    assignments (ts ++ sep :: us) = (do
      let others ← assignments us
      .ok (as ++ others)) := by
  induction all generalizing ts as with
  | nil =>
      obtain rfl := List.forall₂_nil_right_iff.1 hfits
      cases hall with
      | empty separates =>
          have hseps := List.forall_mem_append.2 ⟨separates, List.forall_mem_singleton.2 hsep⟩
          rw [← List.singleton_append, ← List.append_assoc, assignments_append_of_separates hseps]
          cases assignments us <;> rfl
  | cons tokens all ih =>
      obtain ⟨a, others, hfirst, hothers, rfl⟩ := List.forall₂_cons_right_iff.1 hfits
      cases hall with
      | @first seps rest _ _ separates valid more =>
          have hmore := ih more.separated hothers
          have hhead : ∀ tok ∈ (rest ++ sep :: us).head?, tok.Separates := by
            cases rest with
            | nil => simpa using hsep
            | cons tok rest => exact more.head_separates
          rw [List.append_assoc, List.append_assoc,
            assignments_of_assignment (valid.dropWhile_separators separates _),
            assignment_complete valid hfirst hhead]
          obtain ⟨tok, after, hrest⟩ : ∃ tok after, rest ++ sep :: us = tok :: after :=
            List.exists_cons_of_ne_nil (by simp)
          rw [hrest] at hhead hmore ⊢
          change (if isSeparator tok then _ else _) = _
          rw [if_pos (isSeparator_iff.2 (hhead tok rfl)), hmore]
          cases assignments us <;> rfl

end Reader

/-! Compiling more assignments -/

/-- Further names leave the index of a name as it is. -/
theorem Scope.index?_ofNames_append {names : List String} (names' : List String) {name : String}
    {index : Option Nat} (h : (ofNames names).index? name = some index) :
    (ofNames (names ++ names')).index? name = some index := by
  rw [index?, ofNames] at h ⊢
  rw [numbered_append, ← List.cons_append, List.lookup_append, h]
  rfl

namespace Function

theorem ofAssignments_append {scope mid : Scope} {as : List Assignment} {fs : List Function}
    (h : ofAssignments scope as = .ok (fs, mid)) (bs : List Assignment) :
    ofAssignments scope (as ++ bs) = (do
      let more ← ofAssignments mid bs
      .ok (fs ++ more.1, more.2)) := by
  induction as generalizing scope fs with
  | nil =>
      cases h
      rw [List.nil_append]
      cases h : ofAssignments mid bs with
      | error fault => rfl
      | ok more => rfl
  | cons a as ih =>
      simp only [ofAssignments] at h
      obtain ⟨⟨f, next⟩, hf, h⟩ := Outcome.bind_eq_ok_iff.1 h
      obtain ⟨⟨gs, last⟩, hgs, h⟩ := Outcome.bind_eq_ok_iff.1 h
      cases h
      rw [List.cons_append, ofAssignments, hf]
      change (do
        let rest ← ofAssignments next (as ++ bs)
        .ok (f :: rest.1, rest.2)) = _
      rw [ih hgs]
      cases ofAssignments last bs <;> rfl

/-- Compiling assignments fails at an identifier of theirs. -/
theorem exists_identifier_of_error {scope : Scope} {known : List String}
    (hscope : scope.Binds known) {all : List AssignmentTokens} {ts : List Token}
    (hall : SeparatedAssignments all ts) {as : List Assignment}
    (hfits : List.Forall₂ Assignment.Fits as all) {fault : Placed Cause}
    (h : ofAssignments scope as = .error fault) :
    ∃ tok ∈ ts, tok.kind = .ident ∧ tok.position = fault.position := by
  have herror := Outcome.error?_eq_some_iff.2 h
  rw [error?_ofAssignments hscope] at herror
  exact Occurrence.exists_identifier_of_fault (hall.identifiers hfits known) herror

theorem exists_binds {scope last : Scope} {known : List String} (hscope : scope.Binds known)
    {as : List Assignment} {fs : List Function} (h : ofAssignments scope as = .ok (fs, last)) :
    ∃ known', last.Binds known' := by
  induction as generalizing scope known fs with
  | nil =>
      cases h
      exact ⟨known, hscope⟩
  | cons a as ih =>
      simp only [ofAssignments] at h
      obtain ⟨⟨f, next⟩, hf, h⟩ := Outcome.bind_eq_ok_iff.1 h
      obtain ⟨⟨gs, last'⟩, hgs, h⟩ := Outcome.bind_eq_ok_iff.1 h
      cases h
      obtain rfl := scope_of_ofAssignment hf
      exact ih (hscope.settle_define a.target.value) hgs

end Function

/-! Sources -/

section Sources

variable {s : Scanned} {as : List Assignment}

/-- The assignments of tokens after which a line ends and others follow. -/
theorem assignments_append_line {all : List AssignmentTokens}
    (hall : IsClause all (clauseTokens s.tokens)) (hfits : List.Forall₂ Assignment.Fits as all)
    (hne : as ≠ []) (p : Position) (after : Scanned) :
    Scanned.assignments ⟨s.tokens ++ ⟨.newline, "\n", p⟩ :: after.tokens, after.finish⟩ = (do
      let others ← Reader.assignments (significant 0 after.tokens)
      .ok (as ++ others)) := by
  have hne' : all ≠ [] := by
    rintro rfl
    exact hne (List.forall₂_nil_right_iff.1 hfits)
  rw [← significant_eq_clauseTokens] at hall
  have hnewline : significant 0 (⟨.newline, "\n", p⟩ :: after.tokens) =
      ⟨.newline, "\n", p⟩ :: significant 0 after.tokens := by
    rw [significant_cons, if_neg fun h => Nat.lt_irrefl 0 h.2]
    rfl
  rw [Scanned.assignments, hall.significant_append, hnewline, Reader.dropWhere_append hall hne']
  exact Reader.assignments_append_separator (isClause_iff.1 hall) hfits (.inl rfl) _

/-- The place of an error is a place in the last part of a source, which begins at `p`. -/
def CompileError.LiesIn (e : CompileError) (source : String) (p : Position) (part : List Char) :
    Prop :=
  ∃ before after, part = before ++ after ∧ e.place = .ofPosition source (p.advance before)

theorem liesIn_inSource {p : Position} {part : List Char} (h : Lexer.scanFrom p part = .ok s)
    {tok : Token} (htok : tok ∈ s.withEof) (source : String) (cause : Cause) :
    (CompileError.inSource source ⟨cause, tok.position⟩).LiesIn source p part := by
  obtain ⟨before, after, hpart, hposition⟩ := (Lexer.scans_of_scanFrom h).text_eq tok htok
  exact ⟨before, _, hpart, congrArg (Place.ofPosition source) hposition⟩

theorem mem_of_significant {ts : List Token} {tok : Token} (h : tok ∈ significant 0 ts) :
    tok ∈ ts :=
  (clauseTokens_sublist ts).mem (significant_eq_clauseTokens ts ▸ h)

/-- Reading assignments gets stuck at one of the tokens, or at the end of them. -/
theorem current_mem_withEof (hspelled : ∀ tok ∈ significant 0 s.tokens, tok.Spelled)
    {stuck : Stuck} (h : Reader.assignments (significant 0 s.tokens) = .error stuck) :
    s.current stuck.rest ∈ s.withEof := by
  obtain ⟨taken, hinput, _⟩ := Reader.assignments_stuck hspelled h
  cases hrest : stuck.rest with
  | nil => exact List.mem_append_right _ List.mem_cons_self
  | cons tok rest =>
      refine List.mem_append_left _ (mem_of_significant ?_)
      rw [hinput, hrest]
      exact List.mem_append_right _ List.mem_cons_self

/-- Reading behind the end of a line: the assignments of the first part come first, or what is wrong
lies in the last part. -/
theorem parseAssignments_line {first : String} (hs : scan first = .ok s)
    (has : parseAssignments first = .ok as) (hne : as ≠ []) (more : String) :
    (∃ bs after all, parseAssignments (first ++ "\n" ++ more) = .ok (as ++ bs) ∧
      Lexer.scanFrom (s.finish.next '\n') more.toList = .ok after ∧
      SeparatedAssignments all (significant 0 after.tokens) ∧
      List.Forall₂ Assignment.Fits bs all) ∨
    ∃ e, parseAssignments (first ++ "\n" ++ more) = .error e ∧
      e.LiesIn (first ++ "\n" ++ more) (s.finish.next '\n') more.toList := by
  obtain ⟨all, hall, hfits⟩ := (parseAssignments_eq_ok_iff hs).1 has
  have hscan := scan_append_line hs more
  rcases Lexer.scanFrom_cases (s.finish.next '\n') more.toList with
    ⟨after, hafter, _⟩ | ⟨c, before, others, herror, hmore⟩
  · rw [hafter] at hscan
    have hspelled : ∀ tok ∈ significant 0 after.tokens, tok.Spelled := by
      intro tok htok
      refine spelled_of_scan hscan tok ?_
      exact List.mem_append_right _ (List.mem_cons_of_mem _ (mem_of_significant htok))
    have hparse := assignments_append_line hall hfits hne s.finish after
    cases hothers : Reader.assignments (significant 0 after.tokens) with
    | error stuck =>
        rw [hothers, Scanned.assignments, significant_eq_clauseTokens] at hparse
        have hmem := current_mem_withEof hspelled hothers
        exact .inr ⟨_, (parseAssignments_eq_error_iff hscan).2 ⟨stuck, hparse, rfl⟩,
          liesIn_inSource hafter hmem _ (.malformed _)⟩
    | ok bs =>
        rw [hothers] at hparse
        obtain ⟨all', hall', hfits'⟩ := Reader.assignments_sound hspelled hothers
        refine .inl ⟨bs, after, all', ?_, hafter, hall', hfits'⟩
        rw [parseAssignments, scanSource, hscan]
        change (Scanned.assignments _).mapError _ = _
        rw [hparse]
        rfl
  · rw [herror] at hscan
    refine .inr ⟨.inSource _ (unexpectedCharacter ⟨c, _⟩), ?_, before, _, hmore, rfl⟩
    rw [parseAssignments, scanSource, hscan]
    rfl

/-- Compiling behind the end of a line: the functions and the names of the first part come first, or
what is wrong lies in the last part. -/
theorem compileAssignments_line {first : String} (hs : scan first = .ok s)
    (has : parseAssignments first = .ok as) (hne : as ≠ []) {fs : List Function} {scope : Scope}
    (hfs : Function.ofAssignments .initial as = .ok (fs, scope)) (more : String) :
    (∃ bs gs last, compileAssignments (first ++ "\n" ++ more) = .ok (fs ++ gs, last) ∧
      Function.ofAssignments .initial (as ++ bs) = .ok (fs ++ gs, last)) ∨
    ∃ e, compileAssignments (first ++ "\n" ++ more) = .error e ∧
      e.LiesIn (first ++ "\n" ++ more) (s.finish.next '\n') more.toList := by
  rcases parseAssignments_line hs has hne more with
    ⟨bs, after, all, hparse, hafter, hall, hfits⟩ | ⟨e, hparse, hlies⟩
  · have happend := Function.ofAssignments_append hfs bs
    have hcompile : compileAssignments (first ++ "\n" ++ more) =
        (Function.ofAssignments .initial (as ++ bs)).mapError
          (.inSource (first ++ "\n" ++ more)) := by
      rw [compileAssignments, hparse]
      rfl
    cases hbs : Function.ofAssignments scope bs with
    | ok r =>
        rw [hbs] at happend
        exact .inl ⟨bs, r.1, r.2, hcompile.trans (congrArg _ happend), happend⟩
    | error fault =>
        rw [hbs] at happend
        refine .inr ⟨_, hcompile.trans (congrArg _ happend), ?_⟩
        obtain ⟨known, hknown⟩ := Function.exists_binds Scope.binds_initial hfs
        obtain ⟨tok, htok, _, hposition⟩ :=
          Function.exists_identifier_of_error hknown hall hfits hbs
        have hmem := List.mem_append_left [Token.eof after.finish] (mem_of_significant htok)
        have hlies := liesIn_inSource hafter hmem (first ++ "\n" ++ more) fault.value
        rwa [hposition] at hlies
  · refine .inr ⟨e, ?_, hlies⟩
    rw [compileAssignments, hparse]
    rfl

/-- Appending lines to a where clause with an assignment in it changes nothing that is there. Its
functions and its names stay the first ones if the whole compiles, each name with its index. If the
whole is rejected, the error is reported at a place in these lines, behind all lines of the
clause. -/
theorem compileAssignments_append_line {first : String} {fs : List Function} {scope : Scope}
    (h : compileAssignments first = .ok (fs, scope)) (hne : fs ≠ []) (more : String) :
    (∀ gs scope', compileAssignments (first ++ "\n" ++ more) = .ok (gs, scope') →
      fs <+: gs ∧ scope.names <+: scope'.names ∧
      ∀ name index, scope.index? name = some (some index) →
        scope'.index? name = some (some index)) ∧
    ∀ e, compileAssignments (first ++ "\n" ++ more) = .error e →
      ((Text.splitLines first.toList).length : Int) < e.place.line ∧
      ∃ before after, more.toList = before ++ after ∧
        e.place = .ofPosition (first ++ "\n" ++ more)
          (Position.start.advance (first.toList ++ '\n' :: before)) := by
  obtain ⟨as, has, hfs⟩ := Outcome.bind_eq_ok_iff.1 h
  have hfs := Outcome.mapError_eq_ok_iff.1 hfs
  obtain ⟨s, hs⟩ := exists_scan_of_read has
  have hfinish := (Lexer.scans_of_scanFrom hs).finish_eq
  have has' : as ≠ [] := by
    rintro rfl
    cases hfs
    exact hne rfl
  rcases compileAssignments_line hs has has' hfs more with
    ⟨bs, gs, last, hcompile, hall⟩ | ⟨e, hcompile, before, after, hmore, hplace⟩
  · rw [hcompile]
    refine ⟨?_, fun e he => by cases he⟩
    rintro _ _ ⟨⟩
    obtain ⟨_, rfl⟩ := Function.scope_of_ofAssignments isNaming_nil hfs
    obtain ⟨_, rfl⟩ := Function.scope_of_ofAssignments isNaming_nil hall
    rw [Scope.names_ofNames, Scope.names_ofNames, List.map_append, List.nil_append, List.nil_append]
    refine ⟨List.prefix_append fs gs, List.prefix_append _ _, ?_⟩
    exact fun _ _ => Scope.index?_ofNames_append _
  · rw [hcompile]
    refine ⟨fun gs scope' hok => (by cases hok), ?_⟩
    rintro _ ⟨⟩
    rw [hfinish] at hplace
    have hposition : Position.start.advance (first.toList ++ '\n' :: before) =
        ((Position.start.advance first.toList).next '\n').advance before := by
      rw [Position.advance_append, Position.advance_cons]
    rw [← hposition] at hplace
    refine ⟨?_, before, after, hmore, hplace⟩
    rw [hplace]
    change _ < ((Position.start.advance (first.toList ++ '\n' :: before)).line : Int)
    rw [Position.line_advance, List.count_append, List.count_cons_self, Text.length_splitLines]
    change _ < ((1 + _ : Nat) : Int)
    omega

end Sources

theorem compileAssignments_append_line_reference :
    ∃ fs scope, compileAssignments "u = t" = .ok (fs, scope) ∧ fs ≠ [] ∧
      (∃ gs scope', compileAssignments ("u = t" ++ "\n" ++ "v = u") = .ok (gs, scope') ∧
        fs <+: gs ∧ scope.names <+: scope'.names ∧
        ∀ name index, scope.index? name = some (some index) →
          scope'.index? name = some (some index)) ∧
      ∃ e, compileAssignments ("u = t" ++ "\n" ++ "v = q") = .error e ∧ 1 < e.place.line := by
  have hcount : (compileAssignments "u = t").toOption.map (·.1.length) = some 1 := by
    decide +kernel
  cases h : compileAssignments "u = t" with
  | error e =>
      rw [h] at hcount
      cases hcount
  | ok r =>
      obtain ⟨fs, scope⟩ := r
      rw [h] at hcount
      have hne : fs ≠ [] := by
        rintro rfl
        cases hcount
      refine ⟨fs, scope, rfl, hne, ?_, ?_⟩
      · obtain ⟨⟨gs, scope'⟩, hmore⟩ := Outcome.exists_eq_ok
          (show (compileAssignments ("u = t" ++ "\n" ++ "v = u")).isOk = true by decide +kernel)
        exact ⟨gs, scope', hmore, (compileAssignments_append_line h hne "v = u").1 _ _ hmore⟩
      · have herror : Outcome.error? (compileAssignments ("u = t" ++ "\n" ++ "v = q")) =
            some ⟨.unknownVariable "q", ⟨2, 5, some "v = q"⟩, none⟩ := by
          decide +kernel
        have hmore := Outcome.error?_eq_some_iff.1 herror
        exact ⟨_, hmore, ((compileAssignments_append_line h hne "v = q").2 _ hmore).1⟩

end FlightCurve

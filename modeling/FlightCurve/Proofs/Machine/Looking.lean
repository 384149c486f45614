import FlightCurve.Proofs.Machine.Contracts

/-!
Looking at tokens and moving over them. The line feeds that are passed over end at a token that
counts, since the last token is no line feed; the same holds of the tokens that are looked at ahead.
Moving on stops silently at the last token, which only stands for the end: whatever else is moved
over is a token that was taken.
-/

namespace FlightCurve

namespace Cursor

variable {tokens : List Token} {separating : Bool} {c here next : Cursor} {tok tok' : Token}

/-- The current token is there, and it counts. -/
theorem counts_of_current (h : current tokens separating c = .ok (tok, here)) :
    tokens[here.index]? = some tok ∧
      ¬(tok.kind = .newline ∧ (separating = false ∨ 0 < here.depth)) := by
  fun_induction current tokens separating c with
  | case1 start hnone => cases h
  | case2 start tok hsome hblank ih => exact ih h
  | case3 start tok hsome hcounts =>
      cases h
      exact ⟨hsome, hcounts⟩

/-- Where the current token was come to, it is current. -/
theorem current_of_current (h : current tokens separating c = .ok (tok, here)) :
    current tokens separating here = .ok (tok, here) :=
  current_of_counts (counts_of_current h).1 (counts_of_current h).2

theorem eq_of_current (h : current tokens separating c = .ok (tok, here))
    (hagain : current tokens separating here = .ok (tok', next)) : tok' = tok ∧ next = here := by
  rw [current_of_current h] at hagain
  cases hagain
  exact ⟨rfl, rfl⟩

theorem eq_of_peek {offset : Nat} (h : current tokens separating c = .ok (tok, here))
    (hpeek : peek tokens separating offset here = .ok (tok', next)) : next = here := by
  rw [peek, current_of_current h] at hpeek
  change (ahead tokens here.index offset >>= _) = _ at hpeek
  cases hahead : ahead tokens here.index offset with
  | error stop =>
      rw [hahead] at hpeek
      cases hpeek
  | ok seen =>
      rw [hahead] at hpeek
      cases hpeek
      rfl

theorem eq_of_advance (h : current tokens separating c = .ok (tok, here))
    (hadvance : advance tokens separating here = .ok (tok', next)) : tok' = tok := by
  rw [advance, current_of_current h] at hadvance
  cases hadvance
  rfl

end Cursor

namespace Machine

variable {m : Machine} {p : Procedure} {st st₁ st₂ : State} {i : Nat} {tok : Token}

/-! Tokens -/

/-- The last token is the end. -/
theorem succ_lt_of_kind (h : m.tokens[i]? = some tok) (hkind : tok.kind ≠ .eof) :
    i + 1 < m.tokens.length := by
  have hlt : i < m.tokens.length := (List.getElem?_eq_some_iff.1 h).1
  have hlength : m.tokens.length = m.source.tokens.length + 1 := Cursor.length_withEof
  have hlast : i ≠ m.source.tokens.length := by
    rintro rfl
    have hend : m.tokens[m.source.tokens.length]? = some (.eof m.source.finish) :=
      Cursor.withEof_getElem?_length
    rw [hend] at h
    cases h
    exact hkind rfl
  omega

theorem InBounds.getElem? (h : m.InBounds st) : ∃ tok, m.tokens[st.index]? = some tok :=
  ⟨_, List.getElem?_eq_getElem h.index_lt⟩

theorem InBounds.pass (h : m.InBounds st) (hlt : st.index + 1 < m.tokens.length) :
    m.InBounds st.pass :=
  ⟨hlt, h.depth_nonneg, h.depth_le⟩

theorem InBounds.take (h : m.InBounds st) (hlt : st.index + 1 < m.tokens.length) :
    m.InBounds st.take :=
  ⟨hlt, h.depth_nonneg, h.depth_le⟩

theorem depth_pos_iff (st : State) : 0 < st.depth ↔ 0 < st.cursor.depth := by
  change 0 < st.depth ↔ 0 < st.depth.toNat
  omega

/-! Bodies -/

theorem meets_skip (h : m.Callable .skip st) : m.Meets .skip st (m.body .skip) st := by
  obtain ⟨tok, htok⟩ := h.bounds.getElem?
  refine .get (.look htok ?_)
  have hcurrent : Cursor.current m.tokens m.separating st.cursor = _ :=
    Cursor.current_of_getElem? htok
  simp only [← depth_pos_iff] at hcurrent
  split
  · rename_i hblank
    have hlt := succ_lt_of_kind htok (by simp [hblank.1])
    have hpass := h.bounds.pass hlt
    rw [if_pos hblank] at hcurrent
    have hsize : m.size (.skip, st.pass) < m.size (.skip, st) :=
      size_lt_of_position (Nat.lt_succ_self st.index) h.position_lt
    refine .put hpass (Nat.le_succ _) ?_
    refine .call ⟨hpass, hlt⟩ hsize (fun _ => False.elim) (fun _ _ => False.elim) ?_
    intro _ st₁ hskip
    obtain ⟨tok', hrest⟩ := hskip.returned
    have honward : m.Onward st st.pass := ⟨hpass, Nat.le_succ _, Nat.le_refl _, rfl⟩
    exact .ret ⟨honward.trans hskip.onward, False.elim, tok', hcurrent.trans hrest⟩
  · rename_i hcounts
    rw [if_neg hcounts] at hcurrent
    exact .ret ⟨.refl h.bounds, False.elim, tok, hcurrent⟩

theorem meets_current (h : m.Callable .current st) : m.Meets .current st (m.body .current) st := by
  refine .lower (.refl h.bounds) (by simp [Procedure.level]) (fun _ _ => False.elim) ?_
  intro _ st₁ hskip
  obtain ⟨tok, hcurrent⟩ := hskip.returned
  have hfound := (Cursor.counts_of_current hcurrent).1
  exact .get (.look hfound (.ret ⟨hskip.onward, False.elim, hcurrent⟩))

theorem meets_ahead {index offset : Nat} (h : m.Callable (.ahead index offset) st) :
    m.Meets (.ahead index offset) st (m.body (.ahead index offset)) st := by
  have hindex : index < m.tokens.length := h.position_lt
  have htok := List.getElem?_eq_getElem hindex
  rw [body]
  split
  · rename_i hmore
    have hlt : index + 1 < m.tokens.length := by omega
    have hnext := List.getElem?_eq_getElem hlt
    refine .look hnext (.call ⟨h.bounds, hlt⟩ ?_ (fun _ => False.elim) (fun _ _ => False.elim) ?_)
    · exact size_lt_of_position (Nat.lt_succ_self index) hindex
    · intro tok st₁ hahead
      refine .ret ⟨hahead.onward, False.elim, ?_, hahead.returned.2⟩
      obtain ⟨n, rfl⟩ : ∃ n, offset = n + 1 := ⟨offset - 1, by omega⟩
      rw [Cursor.ahead_succ_of_lt hnext]
      exact hahead.returned.1
  · rename_i hhere
    exact .look htok (.ret ⟨.refl h.bounds, False.elim, Cursor.ahead_of_here htok hhere, rfl⟩)

theorem meets_peek {offset : Nat} (h : m.Callable (.peek offset) st) :
    m.Meets (.peek offset) st (m.body (.peek offset)) st := by
  refine .lower (.refl h.bounds) (by simp [Procedure.level]) (fun _ _ => False.elim) ?_
  intro _ st₁ hskip
  obtain ⟨here, hcurrent⟩ := hskip.returned
  have hbounds := hskip.onward.bounds
  have hsize : m.size (.ahead st₁.index offset, st₁) < m.size (.peek offset, st) :=
    size_lt_of_level hskip.onward.index_le (by simp [Procedure.level])
  refine .get ?_
  refine .call ⟨hbounds, hbounds.index_lt⟩ hsize (fun _ => False.elim) (fun _ _ => False.elim) ?_
  intro tok st₂ hahead
  obtain ⟨hseen, rfl⟩ := hahead.returned
  refine .ret ⟨hskip.onward, False.elim, ?_⟩
  change Cursor.peek m.tokens m.separating offset st.cursor = _
  rw [Cursor.peek, hcurrent]
  change (Cursor.ahead m.tokens st₂.index offset >>= _) = _
  rw [hseen]
  rfl

theorem meets_advance (h : m.Callable .advance st) : m.Meets .advance st (m.body .advance) st := by
  refine .current (.refl h.bounds) (by simp [Procedure.level]) ?_
  intro tok st₁ hcurrent
  have hbounds := hcurrent.onward.bounds
  have hadvance : Cursor.advance m.tokens m.separating st.cursor =
      .ok (tok, if st₁.index < m.tokens.length - 1 then st₁.take.cursor else st₁.cursor) := by
    rw [Cursor.advance, hcurrent.current_eq]
    rfl
  refine .get ?_
  split
  · rename_i hmore
    have hlt : st₁.index + 1 < m.tokens.length := by omega
    have honward : m.Onward st₁ st₁.take :=
      ⟨hbounds.take hlt, Nat.le_succ _, Nat.le_succ _, rfl⟩
    have htook : Took st₁ st₁.take := ⟨Nat.lt_succ_self _, Nat.lt_succ_self _⟩
    rw [if_pos hmore] at hadvance
    exact .put honward.bounds honward.index_le
      (.ret ⟨hcurrent.onward.trans honward, fun _ => hcurrent.onward.took htook, hadvance⟩)
  · rename_i hlast
    rw [if_neg hlast] at hadvance
    refine .ret ⟨hcurrent.onward, ?_, hadvance⟩
    -- what does not move on stands at the end
    intro hkind
    have hlt := succ_lt_of_kind (Cursor.counts_of_current hcurrent.returned).1 hkind
    exact absurd (show st₁.index < m.tokens.length - 1 by
      change st₁.index + 1 < m.tokens.length at hlt
      omega) hlast

/-- Moving over the current token takes it, unless it is the end. -/
theorem Contract.took {tok' : Token} (hcurrent : m.Contract .current st tok st₁)
    (hadvance : m.Contract .advance st₁ tok' st₂) (hkind : tok.kind ≠ .eof) : Took st st₂ := by
  obtain rfl := Cursor.eq_of_advance hcurrent.returned hadvance.returned
  exact hcurrent.onward.took (hadvance.takes hkind)

theorem meets_expect {kind : Kind} (h : m.Callable (.expect kind) st) :
    m.Meets (.expect kind) st (m.body (.expect kind)) st := by
  refine .current (.refl h.bounds) (by simp [Procedure.level]) ?_
  intro tok st₁ hcurrent
  have hexpect : Cursor.expect m.tokens m.separating kind st.cursor = _ :=
    Cursor.expect_of_current hcurrent.returned
  split
  · rename_i hkind
    rw [if_pos hkind] at hexpect
    refine .advance hcurrent.onward (by simp [Procedure.level]) ?_
    intro tok' st₂ hadvance
    exact .ret ⟨hcurrent.onward.trans hadvance.onward,
      fun heof => hcurrent.took hadvance (hkind ▸ heof), hexpect.trans hadvance.returned⟩
  · rename_i hkind
    rw [if_neg hkind] at hexpect
    exact .stuck hexpect

theorem meets_accept {kinds : List Kind} (h : m.Callable (.accept kinds) st) :
    m.Meets (.accept kinds) st (m.body (.accept kinds)) st := by
  refine .current (.refl h.bounds) (by simp [Procedure.level]) ?_
  intro tok st₁ hcurrent
  split
  · rename_i hkind
    refine .advance hcurrent.onward (by simp [Procedure.level]) ?_
    intro tok' st₂ hadvance
    obtain rfl := Cursor.eq_of_advance hcurrent.returned hadvance.returned
    refine .ret ⟨hcurrent.onward.trans hadvance.onward, ?_, hkind, _, hcurrent.returned,
      hadvance.returned⟩
    exact fun hkinds => hcurrent.took hadvance fun heof => hkinds.1 (heof ▸ hkind)
  · rename_i hkind
    refine .ret ⟨hcurrent.onward, ?_, tok, hkind, hcurrent.returned⟩
    exact fun htakes => absurd htakes.2 Bool.false_ne_true

end Machine

end FlightCurve

import FlightCurve.Proofs.Machine.Looking

/-!
Expressions in a machine. Every rule takes a token before it returns, and leaves as many parentheses
open as it found; a chain goes round again only after it has taken an operator and an operand. What
is in parentheses begins behind the opening one, so its rules may be called from the lowest one.
-/

namespace FlightCurve

namespace Machine

variable {m : Machine} {st st₁ st₂ : State} {reason : Reason} {tok : Token}

/-! Reading in the depth of the call -/

theorem reads_chain (m : Machine) (depth : Int) (c : Chain) :
    m.reads depth (.chain c) =
      Cursor.chain m.tokens m.separating c (m.reads depth c.operand) := by
  cases c <;> rfl

theorem reads_of_returned {r : Rule} {tree : Tree r} (h : m.Returned (.rule r) st₁ tree st₂)
    (honward : m.Onward st st₁) : m.reads st.depth r st₁.cursor = .ok (tree, st₂.cursor) :=
  honward.depth_eq ▸ h

theorem reads_of_refused {r : Rule} (h : m.Refused (.rule r) st₁ reason tok)
    (honward : m.Onward st st₁) :
    m.reads st.depth r st₁.cursor = .error (.stuck reason tok) :=
  honward.depth_eq ▸ h

theorem tail_of_returned {c : Chain} {rest : Tail c} (h : m.Returned (.tail c) st₁ rest st₂)
    (honward : m.Onward st st₁) :
    Cursor.tail m.tokens m.separating c (m.reads st.depth c.operand) st₁.cursor =
      .ok (rest, st₂.cursor) :=
  honward.depth_eq ▸ h

theorem tail_of_refused {c : Chain} (h : m.Refused (.tail c) st₁ reason tok)
    (honward : m.Onward st st₁) :
    Cursor.tail m.tokens m.separating c (m.reads st.depth c.operand) st₁.cursor =
      .error (.stuck reason tok) :=
  honward.depth_eq ▸ h

/-- A rule on a lower level may be called, and what it reads is gone on with. -/
theorem Meets.reading {r s : Rule} {next : Tree s → Program (Tree r)}
    {rest : Tree s × Cursor → Except Cursor.Stop (Tree r × Cursor)} (honward : m.Onward st st₁)
    (hlevel : 0 < (Procedure.rule s).level ∧ (Procedure.rule s).level < (Procedure.rule r).level)
    (hreads : m.reads st.depth r st.cursor = m.reads st.depth s st₁.cursor >>= rest)
    (more : ∀ value st₂, m.Contract (.rule s) st₁ value st₂ →
      m.reads st.depth r st.cursor = rest (value, st₂.cursor) →
      m.Meets (.rule r) st (next value) st₂) :
    m.Meets (.rule r) st (.call (.rule s) next) st₁ := by
  refine .lower honward hlevel ?_ ?_
  · intro reason tok hrefused
    rw [reads_of_refused hrefused honward] at hreads
    exact hreads
  · intro value st₂ hvalue
    rw [reads_of_returned hvalue.returned honward] at hreads
    exact more value st₂ hvalue hreads

/-! Chains -/

theorem level_operand (c : Chain) :
    0 < (Procedure.rule c.operand).level ∧
      (Procedure.rule c.operand).level < (Procedure.rule (.chain c)).level := by
  cases c <;> simp [Procedure.level]

/-- An operator that goes on a chain is taken; otherwise the chain is done. -/
theorem meets_operator {c : Chain} (read : Cursor.Read (Tree c.operand))
    {next : Option (Placed c.Op) → Program (Tail c)} (h : m.InBounds st)
    (hdone : ∀ st₁, m.Onward st st₁ →
      Cursor.tail m.tokens m.separating c read st.cursor = .ok (.done, st₁.cursor) →
      m.Meets (.tail c) st (next none) st₁)
    (hstep : ∀ op st₁, m.Onward st st₁ → Took st st₁ →
      Cursor.tail m.tokens m.separating c read st.cursor = (do
        let (value, after) ← read st₁.cursor
        if st.index < after.index ∧ st.index < m.tokens.length then do
          let (rest, last) ← Cursor.tail m.tokens m.separating c read after
          .ok (.step op value rest, last)
        else .error .stalled) →
      m.Meets (.tail c) st (next (some op)) st₁) :
    m.Meets (.tail c) st (operator c next) st := by
  have hseen : m.Meets (.tail c) st (seenOperator c next) st := by
    refine .current (.refl h) (by simp [Procedure.level]) ?_
    intro tok st₁ hcurrent
    split
    · rename_i hop
      exact hdone st₁ hcurrent.onward (Cursor.tail_of_none hcurrent.returned hop)
    · rename_i op hop
      refine .advance hcurrent.onward (by simp [Procedure.level]) ?_
      intro tok' st₂ hadvance
      obtain rfl := Cursor.eq_of_advance hcurrent.returned hadvance.returned
      have heof : tok'.kind ≠ .eof := by
        intro heof
        rw [heof, Cursor.op?_eof] at hop
        cases hop
      exact hstep _ st₂ (hcurrent.onward.trans hadvance.onward)
        (hcurrent.took hadvance heof)
        (Cursor.tail_of_some hcurrent.returned hop hadvance.returned)
  cases c with
  | sum => exact hseen
  | product => exact hseen
  | power =>
      refine .lower (.refl h) (by simp [Procedure.level]) (fun _ _ => False.elim) ?_
      intro tok? st₁ haccept
      cases tok? with
      | none =>
          obtain ⟨tok, hkind, hcurrent⟩ := haccept.returned
          have hop : Chain.op? .power tok.kind = none :=
            if_neg fun hcaret => hkind (List.mem_singleton.2 hcaret)
          exact hdone st₁ haccept.onward (Cursor.tail_of_none hcurrent hop)
      | some tok =>
          obtain ⟨hkind, here, hcurrent, hadvance⟩ := haccept.returned
          have hop : Chain.op? .power tok.kind = some () := if_pos (List.mem_singleton.1 hkind)
          exact hstep _ st₁ haccept.onward (haccept.takes ⟨by decide, rfl⟩)
            (Cursor.tail_of_some hcurrent hop hadvance)

theorem meets_tail {c : Chain} (h : m.Callable (.tail c) st) :
    m.Meets (.tail c) st (m.body (.tail c)) st := by
  refine meets_operator (m.reads st.depth c.operand) h.bounds ?_ ?_
  · intro st₁ honward htail
    exact .ret ⟨honward, False.elim, htail⟩
  · intro op st₁ honward htook htail
    refine .beyond honward.bounds htook (level_operand c).1 (by simp [Procedure.level]) ?_ ?_
    · intro reason tok hrefused
      rw [reads_of_refused hrefused honward] at htail
      exact htail
    · intro value st₂ hvalue
      have honward₂ := honward.trans hvalue.onward
      have htook₂ := htook.onward hvalue.onward
      rw [reads_of_returned hvalue.returned honward] at htail
      have hmore := htail.trans (if_pos ⟨htook₂.index_lt, h.bounds.index_lt⟩)
      refine .beyond honward₂.bounds htook₂ (by simp [Procedure.level])
        (by simp [Procedure.level]) ?_ ?_
      · intro reason tok hrefused
        rw [tail_of_refused hrefused honward₂] at hmore
        exact hmore
      · intro rest st₃ hrest
        rw [tail_of_returned hrest.returned honward₂] at hmore
        exact .ret ⟨honward₂.trans hrest.onward, False.elim, hmore⟩

theorem meets_chain {c : Chain} (h : m.Callable (.rule (.chain c)) st) :
    m.Meets (.rule (.chain c)) st (m.body (.rule (.chain c))) st := by
  refine .reading (.refl h.bounds) (level_operand c) (congrFun (reads_chain m st.depth c) _) ?_
  intro first st₁ hfirst hreads
  have htook : Took st st₁ := hfirst.takes trivial
  have hlevel : 0 < (Procedure.rule (.chain c)).level :=
    Nat.lt_trans (level_operand c).1 (level_operand c).2
  refine .beyond hfirst.onward.bounds htook (by simp [Procedure.level]) hlevel ?_ ?_
  · intro reason tok hrefused
    have htail := tail_of_refused hrefused hfirst.onward
    simp only [bind, Except.bind, htail] at hreads
    exact hreads
  · intro rest st₂ hrest
    have htail := tail_of_returned hrest.returned hfirst.onward
    simp only [bind, Except.bind, htail] at hreads
    exact .ret ⟨hfirst.onward.trans hrest.onward, fun _ => htook.onward hrest.onward, hreads⟩

/-! Signs -/

theorem reads_signed {sign : Option Token} (h : m.Contract (.accept [.minus]) st sign st₁) :
    m.reads st.depth .signed st.cursor = (do
      let (value, after) ← m.reads st.depth (.chain .power) st₁.cursor
      .ok (.signed sign.isSome value, after)) := by
  cases sign with
  | none =>
      obtain ⟨tok, hkind, hcurrent⟩ := h.returned
      exact Cursor.signed_of_other hcurrent fun hminus => hkind (List.mem_singleton.2 hminus)
  | some tok =>
      obtain ⟨hkind, here, hcurrent, hadvance⟩ := h.returned
      exact Cursor.signed_of_minus hcurrent (List.mem_singleton.1 hkind) hadvance

theorem meets_signed (h : m.Callable (.rule .signed) st) :
    m.Meets (.rule .signed) st (m.body (.rule .signed)) st := by
  refine .lower (.refl h.bounds) (by simp [Procedure.level]) (fun _ _ => False.elim) ?_
  intro sign st₁ hsign
  refine .reading hsign.onward (by simp [Procedure.level]) (reads_signed hsign) ?_
  intro value st₂ hvalue hreads
  exact .ret ⟨hsign.onward.trans hvalue.onward,
    fun _ => hsign.onward.took (hvalue.takes trivial), hreads⟩

/-! Calls -/

theorem meets_plain (honward : m.Onward st st₁)
    (hreads : m.reads st.depth .call st.cursor = (do
      let (value, after) ← m.reads st.depth .primary st₁.cursor
      .ok (.plain value, after))) :
    m.Meets (.rule .call) st plain st₁ := by
  refine .reading honward (by simp [Procedure.level]) hreads ?_
  intro value st₂ hvalue hreads
  exact .ret ⟨honward.trans hvalue.onward, fun _ => honward.took (hvalue.takes trivial), hreads⟩

theorem meets_arguments {name : Token} (honward : m.Onward st st₁) (htook : Took st st₁)
    (hreads : m.reads st.depth .call st.cursor = (do
      let (first, after) ← m.reads st.depth .primary st₁.cursor
      let (next, after) ← Cursor.current m.tokens m.separating after
      if Cursor.startsPrimary next then do
        let (second, after) ← m.reads st.depth .primary after
        .ok (.callTwo name.placed first second, after)
      else .ok (.callOne name.placed first, after))) :
    m.Meets (.rule .call) st (arguments name) st₁ := by
  refine .reading honward (by simp [Procedure.level]) hreads ?_
  intro first st₂ hfirst hreads
  have honward₂ := honward.trans hfirst.onward
  refine .current honward₂ (by simp [Procedure.level]) ?_
  intro next st₃ hnext
  have honward₃ := honward₂.trans hnext.onward
  have htook₃ := htook.onward (hfirst.onward.trans hnext.onward)
  simp only [hnext.current_eq] at hreads
  split
  · rename_i hstarts
    refine .reading honward₃ (by simp [Procedure.level]) (hreads.trans (if_pos hstarts)) ?_
    intro second st₄ hsecond hreads
    exact .ret ⟨honward₃.trans hsecond.onward, fun _ => htook₃.onward hsecond.onward, hreads⟩
  · rename_i hstarts
    exact .ret ⟨honward₃, fun _ => htook₃, hreads.trans (if_neg hstarts)⟩

theorem meets_call (h : m.Callable (.rule .call) st) :
    m.Meets (.rule .call) st (m.body (.rule .call)) st := by
  refine .current (.refl h.bounds) (by simp [Procedure.level]) ?_
  intro tok st₁ hcurrent
  split
  · rename_i hident
    refine .peek hcurrent.onward (by simp [Procedure.level]) ?_
    intro seen st₂ hseen
    have honward₂ := hcurrent.onward.trans hseen.onward
    -- the cursor stays where it looks ahead from
    have hstay : st₂.cursor = st₁.cursor := Cursor.eq_of_peek hcurrent.returned hseen.returned
    split
    · rename_i hstarts
      refine .advance honward₂ (by simp [Procedure.level]) ?_
      intro name st₃ hname
      have hadvance : Cursor.advance m.tokens m.separating st₁.cursor = .ok (name, st₃.cursor) :=
        hstay ▸ hname.returned
      obtain rfl := Cursor.eq_of_advance hcurrent.returned hadvance
      have honward₃ := honward₂.trans hname.onward
      have htook : Took st st₃ := honward₂.took
        (hname.takes (show name.kind ≠ .eof by simp [hident]))
      refine .current honward₃ (by simp [Procedure.level]) ?_
      intro next st₄ hnext
      have honward₄ := honward₃.trans hnext.onward
      have htook₄ := htook.onward hnext.onward
      have hreads : m.reads st.depth .call st.cursor = _ :=
        Cursor.call_of_ident hcurrent.returned hident (hseen.returned.trans (by rw [hstay]))
          hadvance hnext.returned
      rw [if_pos hstarts] at hreads
      split
      · rename_i hstarts'
        rw [if_pos hstarts'] at hreads
        exact meets_arguments honward₄ htook₄ hreads
      · rename_i hstarts'
        rw [if_neg hstarts'] at hreads
        exact .ret ⟨honward₄, fun _ => htook₄, hreads⟩
    · rename_i hstarts
      refine meets_plain honward₂ ?_
      change Cursor.call m.tokens m.separating (m.inside st.depth) st.cursor = _
      rw [Cursor.call, hcurrent.current_eq]
      refine (if_pos hident).trans ?_
      rw [hseen.peek_eq]
      exact if_neg hstarts
  · rename_i hident
    exact meets_plain hcurrent.onward (Cursor.call_of_other hcurrent.returned hident)

/-! Parentheses -/

theorem InBounds.opened (h : m.InBounds st) (hlt : st.depth < maxNesting) : m.InBounds st.opened :=
  ⟨h.index_lt, Int.le_add_one h.depth_nonneg, hlt⟩

theorem Took.opened (h : Took st st₁) : Took st st₁.opened :=
  ⟨h.index_lt, h.taken_lt⟩

theorem Took.closed (h : Took st st₁) : Took st st₁.closed :=
  ⟨h.index_lt, h.taken_lt⟩

/-- Behind the closing parenthesis as many are open as before the opening one. -/
theorem Onward.closed (honward : m.Onward st₁ st₂) (h : m.InBounds st)
    (hopened : st₁.depth = st.depth + 1) (htook : Took st st₁) : m.Onward st st₂.closed := by
  have hclosed : st₂.closed.depth = st.depth := by
    have hinside := honward.depth_eq
    change st₂.depth - 1 = st.depth
    omega
  have hbounds : m.InBounds st₂.closed :=
    ⟨honward.bounds.index_lt, hclosed ▸ h.depth_nonneg, hclosed ▸ h.depth_le⟩
  have htook₂ := htook.onward honward
  exact ⟨hbounds, Nat.le_of_lt htook₂.index_lt, Nat.le_of_lt htook₂.taken_lt, hclosed⟩

theorem cursor_opened (h : 0 ≤ st.depth) :
    st.opened.cursor = ⟨st.cursor.index, st.cursor.depth + 1⟩ := by
  change Cursor.mk st.index (st.depth + 1).toNat = ⟨st.index, st.depth.toNat + 1⟩
  congr 1
  omega

theorem cursor_closed (st : State) :
    st.closed.cursor = ⟨st.cursor.index, st.cursor.depth - 1⟩ := by
  change Cursor.mk st.index (st.depth - 1).toNat = ⟨st.index, st.depth.toNat - 1⟩
  congr 1
  omega

theorem inside_of_lt {depth : Int} (h : 0 ≤ depth) (hlt : depth < maxNesting) :
    m.inside depth = some (m.reads (depth + 1) (.chain .sum)) := by
  have hlevels : maxNesting - depth.toNat = (maxNesting - (depth + 1).toNat) + 1 := by omega
  rw [inside, hlevels]
  rfl

theorem meets_expr (h : m.Callable .expr st) : m.Meets .expr st (m.body .expr) st := by
  refine .lower (.refl h.bounds) (by simp [Procedure.level]) (fun _ _ => id) ?_
  intro value st₁ hvalue
  exact .ret ⟨hvalue.onward, fun _ => hvalue.takes trivial, hvalue.returned⟩

/-- The opening parenthesis is passed; what follows is read in the depth behind it. -/
theorem reads_group {tok' : Token} (hcurrent : m.Contract .current st tok st₁)
    (hkind : tok.kind = .lparen) (hdepth : st.depth < maxNesting)
    (hadvance : m.Contract .advance st₁ tok' st₂) :
    m.reads st.depth .primary st.cursor = (do
      let (value, last) ← m.reads (st.depth + 1) (.chain .sum) st₂.opened.cursor
      let (_, after) ← Cursor.expect m.tokens m.separating .rparen ⟨last.index, last.depth - 1⟩
      .ok (.group value, after)) := by
  have hopen := hcurrent.onward.depth_eq
  have hnonneg : 0 ≤ st.depth := hopen ▸ hcurrent.onward.bounds.depth_nonneg
  have hlt : st₁.cursor.depth < maxNesting := by
    change st₁.depth.toNat < maxNesting
    omega
  change Cursor.primary m.tokens m.separating (m.inside st.depth) st.cursor = _
  rw [inside_of_lt hnonneg hdepth, cursor_opened hadvance.onward.bounds.depth_nonneg]
  exact Cursor.primary_of_lparen hcurrent.returned hkind hlt hadvance.returned

/-- What is in parentheses leaves one parenthesis open, the one that is closed after it. -/
theorem meets_afterOpening (h : m.InBounds st) (hst : m.InBounds st₁)
    (hopened : st₁.depth = st.depth + 1) (htook : Took st st₁)
    (hreads : m.reads st.depth .primary st.cursor = (do
      let (value, last) ← m.reads (st.depth + 1) (.chain .sum) st₁.cursor
      let (_, after) ← Cursor.expect m.tokens m.separating .rparen ⟨last.index, last.depth - 1⟩
      .ok (.group value, after))) :
    m.Meets (.rule .primary) st afterOpening st₁ := by
  rw [← hopened] at hreads
  refine .beyond hst htook (by simp [Procedure.level]) (by simp [Procedure.level]) ?_ ?_
  · intro reason tok hrefused
    rw [reads_of_refused (r := .chain .sum) hrefused (.refl hst)] at hreads
    exact hreads
  · intro value st₂ hvalue
    have honward := hvalue.onward.closed h hopened htook
    have htook₂ := (htook.onward hvalue.onward).closed
    rw [reads_of_returned (r := .chain .sum) hvalue.returned (.refl hst)] at hreads
    simp only [bind, Except.bind, ← cursor_closed] at hreads
    refine .get (.put honward.bounds (Nat.le_refl _) ?_)
    refine .lower honward (by simp [Procedure.level]) ?_ ?_
    · intro reason tok hrefused
      rw [expect_of_refused hrefused] at hreads
      exact hreads
    · intro close st₃ hclose
      rw [hclose.expect_eq] at hreads
      exact .ret ⟨honward.trans hclose.onward, fun _ => htook₂.onward hclose.onward, hreads⟩

theorem meets_group (h : m.InBounds st) (hcurrent : m.Contract .current st tok st₁)
    (hkind : tok.kind = .lparen) (hdepth : st.depth < maxNesting) :
    m.Meets (.rule .primary) st group st₁ := by
  refine .advance hcurrent.onward (by simp [Procedure.level]) ?_
  intro tok' st₂ hadvance
  have honward := hcurrent.onward.trans hadvance.onward
  have hbounds := honward.bounds.opened (honward.depth_eq ▸ hdepth)
  have hopened : st₂.opened.depth = st.depth + 1 := congrArg (· + 1) honward.depth_eq
  have htook := (hcurrent.took hadvance (by simp [hkind])).opened
  exact .get (.put hbounds (Nat.le_refl _)
    (meets_afterOpening h hbounds hopened htook (reads_group hcurrent hkind hdepth hadvance)))

theorem meets_primary (h : m.Callable (.rule .primary) st) :
    m.Meets (.rule .primary) st (m.body (.rule .primary)) st := by
  refine .current (.refl h.bounds) (by simp [Procedure.level]) ?_
  intro tok st₁ hcurrent
  split
  · rename_i hkind
    refine .get ?_
    split
    · rename_i hdeep
      refine .stuck (Cursor.primary_of_tooDeep hcurrent.returned hkind ?_)
      change maxNesting ≤ st₁.depth.toNat
      omega
    · rename_i hdeep
      refine meets_group h.bounds hcurrent hkind ?_
      have hopen := hcurrent.onward.depth_eq
      omega
  · rename_i hkind
    refine .advance hcurrent.onward (by simp [Procedure.level]) ?_
    intro tok' st₂ hadvance
    exact .ret ⟨hcurrent.onward.trans hadvance.onward,
      fun _ => hcurrent.took hadvance (by simp [hkind]),
      Cursor.primary_of_ident hcurrent.returned hkind hadvance.returned⟩
  · rename_i hkind
    refine .advance hcurrent.onward (by simp [Procedure.level]) ?_
    intro tok' st₂ hadvance
    exact .ret ⟨hcurrent.onward.trans hadvance.onward,
      fun _ => hcurrent.took hadvance (by simp [hkind]),
      Cursor.primary_of_number hcurrent.returned hkind hadvance.returned⟩
  · rename_i hlparen hident hnumber
    exact .stuck (Cursor.primary_of_other hcurrent.returned hident hnumber hlparen)

end Machine

end FlightCurve

import FlightCurve.Proofs.Cursor.Steps

/-!
Expressions read by index and off a list. Where the tokens that count after a cursor are known, each
rule of a cursor does to them what the reader of the same rule does, and moves the cursor on.
-/

namespace FlightCurve

namespace Cursor

/-! The same outcome -/

/-- A reader and a cursor both read the same value, or are both stuck at the same token for the same
reason. Afterwards the reader has left the tokens, and the cursor stands, as `After` says. -/
inductive SameOutcome {α : Type} (s : Scanned) (After : Cursor → List Token → Prop) :
    Except Stuck (α × List Token) → Except Stop (α × Cursor) → Prop
  | ok {a : α} {rest : List Token} {c : Cursor} (after : After c rest) :
      SameOutcome s After (.ok (a, rest)) (.ok (a, c))
  | stuck (stuck : Stuck) :
      SameOutcome s After (.error stuck) (.error (.stuck stuck.reason (s.current stuck.rest)))

namespace SameOutcome

variable {α β : Type} {s : Scanned} {After After' : Cursor → List Token → Prop}
  {x : Except Stuck (α × List Token)} {y : Except Stop (α × Cursor)}

theorem bind (h : SameOutcome s After x y) {f : α × List Token → Except Stuck (β × List Token)}
    {g : α × Cursor → Except Stop (β × Cursor)}
    (hnext : ∀ a rest c, After c rest → SameOutcome s After' (f (a, rest)) (g (a, c))) :
    SameOutcome s After' (x >>= f) (y >>= g) := by
  cases h with
  | ok after => exact hnext _ _ _ after
  | stuck stuck => exact .stuck stuck

theorem imp (h : SameOutcome s After x y) (hafter : ∀ c rest, After c rest → After' c rest) :
    SameOutcome s After' x y := by
  cases h with
  | ok after => exact .ok (hafter _ _ after)
  | stuck stuck => exact .stuck stuck

end SameOutcome

/-! Expressions -/

section Expressions

variable {s : Scanned} {separating : Bool}

/-- The cursor has moved on from where it started, and is as deep as before. -/
structure Beyond (s : Scanned) (separating : Bool) (start c : Cursor) (rest : List Token) :
    Prop where
  depth : c.depth = start.depth
  index : start.index < c.index
  stands : Stands s separating c rest

/-- Wherever the same tokens are before them, both ways of reading have the same outcome. -/
def Agrees {α : Type} (s : Scanned) (separating : Bool) (depth : Nat) (read : Read α)
    (reader : Reader α) : Prop :=
  ∀ (start : Cursor) (rest : List Token), Stands s separating start rest → start.depth = depth →
    SameOutcome s (Beyond s separating start) (reader.run rest) (read start)

/-- Both ways of reading agree, and the cursor has come to the token after what it has read. -/
def AgreesSettled {α : Type} (s : Scanned) (separating : Bool) (depth : Nat) (read : Read α)
    (reader : Reader α) : Prop :=
  ∀ (start : Cursor) (rest : List Token), Stands s separating start rest → start.depth = depth →
    SameOutcome s
      (fun c left => Beyond s separating start c left ∧ Settled s separating c left)
      (reader.run rest) (read start)

theorem AgreesSettled.agrees {α : Type} {depth : Nat} {read : Read α} {reader : Reader α}
    (h : AgreesSettled s separating depth read reader) : Agrees s separating depth read reader := by
  intro start rest hstands hdepth
  exact (h start rest hstands hdepth).imp fun _ _ hafter => hafter.1

theorem Settled.next {c : Cursor} {tok : Token} {rest : List Token}
    (h : Settled s separating c (tok :: rest)) (hleft : tok.kind ≠ .lparen)
    (hright : tok.kind ≠ .rparen) : Stands s separating ⟨c.index + 1, c.depth⟩ rest := by
  cases h with
  | atToken here counts after =>
      rw [Token.openAfter_of_kind_ne hleft hright] at after
      exact after

section Chains

variable {c : Chain} {depth : Nat} {read : Read (Tree c.operand)}
  {operand : Reader (Tree c.operand)}

theorem tail_of_none {tokens : List Token} {start here : Cursor} {tok : Token}
    (hcurrent : current tokens separating start = .ok (tok, here)) (hop : c.op? tok.kind = none) :
    tail tokens separating c read start = .ok (.done, here) := by
  rw [tail, hcurrent]
  simp only [bind, Except.bind, hop]

theorem tail_of_some {tokens : List Token} {start here next : Cursor} {tok tok' : Token} {op : c.Op}
    (hcurrent : current tokens separating start = .ok (tok, here)) (hop : c.op? tok.kind = some op)
    (hadvance : advance tokens separating here = .ok (tok', next)) :
    tail tokens separating c read start = (do
      let (value, after) ← read next
      if start.index < after.index ∧ start.index < tokens.length then do
        let (rest, last) ← tail tokens separating c read after
        .ok (.step ⟨op, tok.position⟩ value rest, last)
      else .error .stalled) := by
  rw [tail, hcurrent]
  simp only [bind, Except.bind, hop, hadvance]
  rfl

theorem op?_eof (c : Chain) : c.op? .eof = none := by
  cases c <;> rfl

theorem tail_agrees (hoperand : Agrees s separating depth read operand) {start : Cursor}
    {rest : List Token} (h : Stands s separating start rest) (hdepth : start.depth = depth) :
    SameOutcome s
      (fun last left => last.depth = start.depth ∧ start.index ≤ last.index ∧
        Settled s separating last left)
      (Reader.tailRun c operand rest) (tail s.withEof separating c read start) := by
  -- an operand moves the cursor on, so fewer tokens are left for the rest of the chain
  induction hn : s.withEof.length - start.index using Nat.strongRecOn generalizing start rest with
  | _ n ih =>
      obtain ⟨i, hle, hcurrent, hsettled⟩ := current_of_stands h
      cases rest with
      | nil =>
          rw [Reader.tailRun_nil, tail_of_none hcurrent (op?_eof c)]
          exact .ok ⟨rfl, hle, hsettled⟩
      | cons tok after =>
          rw [Reader.tailRun_cons]
          cases hop : c.op? tok.kind with
          | none =>
              rw [tail_of_none hcurrent hop]
              exact .ok ⟨rfl, hle, hsettled⟩
          | some op =>
              have hkind : c.opKind op = tok.kind := Chain.opKind_of_op? hop
              have hnext := hsettled.next (hkind ▸ c.opKind_ne_lparen op)
                (hkind ▸ c.opKind_ne_rparen op)
              rw [tail_of_some hcurrent hop (advance_of_settled hsettled)]
              refine (hoperand _ _ hnext hdepth).bind ?_
              intro value left last hlast
              have hmoved : start.index < last.index := by
                have := hlast.index
                change i + 1 < last.index at this
                omega
              have hbound : start.index < s.withEof.length := by
                have := hsettled.index_le
                change i ≤ s.tokens.length at this
                rw [length_withEof]
                omega
              change SameOutcome s _ (Reader.tailRun c operand left >>= _)
                (if start.index < last.index ∧ start.index < s.withEof.length then _ else _)
              rw [if_pos ⟨hmoved, hbound⟩]
              have hmore := ih (s.withEof.length - last.index) (by omega)
                hlast.stands (hlast.depth.trans hdepth) rfl
              refine hmore.bind ?_
              rintro others left' last' ⟨hdepth', hindex', hsettled'⟩
              exact .ok ⟨hdepth'.trans hlast.depth, by omega, hsettled'⟩

theorem chain_agrees (hoperand : Agrees s separating depth read operand) :
    AgreesSettled s separating depth (chain s.withEof separating c read)
      (Reader.chain c operand) := by
  intro start rest h hdepth
  rw [Reader.run_chain]
  refine (hoperand _ _ h hdepth).bind ?_
  intro first left last hlast
  refine (tail_agrees hoperand hlast.stands (hlast.depth.trans hdepth)).bind ?_
  rintro others left' last' ⟨hdepth', hindex', hsettled'⟩
  have hindex := hlast.index
  exact .ok ⟨⟨hdepth'.trans hlast.depth, by omega, hsettled'.stands⟩, hsettled'⟩

end Chains

/-- How expressions in parentheses are read agrees, and both ways refuse the same depths. -/
inductive AgreesInside (s : Scanned) (separating : Bool) (depth : Nat) :
    Option (Read Expr) → Option (Reader Expr) → Prop
  | tooDeep (deepest : maxNesting ≤ depth) : AgreesInside s separating depth none none
  | inside {read : Read Expr} {reader : Reader Expr} (allowed : depth < maxNesting)
      (agrees : AgreesSettled s separating (depth + 1) read reader) :
      AgreesInside s separating depth (some read) (some reader)

section Primary

variable {depth : Nat} {readInner : Option (Read Expr)} {inner : Option (Reader Expr)}

/-- A line feed would have been passed over inside the parentheses, so lowering the depth before the
closing one is looked for changes nothing. -/
theorem current_of_lowered {i : Nat} {rest : List Token}
    (h : Settled s separating ⟨i, depth + 1⟩ rest) :
    current s.withEof separating ⟨i, depth⟩ = .ok (s.current rest, ⟨i, depth⟩) := by
  cases h with
  | atEnd last =>
      have hend : s.withEof[i]? = some (.eof s.finish) := by
        rw [show i = s.tokens.length from last]
        exact withEof_getElem?_length
      refine current_of_counts hend ?_
      rintro ⟨hkind, _⟩
      cases hkind
  | atToken here counts after =>
      refine current_of_counts (withEof_getElem? here) ?_
      rintro ⟨hkind, _⟩
      exact counts ⟨hkind, .inr (Nat.succ_pos depth)⟩

theorem expect_of_current {tokens : List Token} {kind : Kind} {start here : Cursor} {tok : Token}
    (h : current tokens separating start = .ok (tok, here)) :
    expect tokens separating kind start =
      if tok.kind = kind then advance tokens separating here
      else .error (.stuck (.expected kind) tok) := by
  rw [expect, h]
  rfl

theorem advance_of_current {start here : Cursor} {tok : Token}
    (h : current s.withEof separating start = .ok (tok, here))
    (hlt : here.index < s.tokens.length) :
    advance s.withEof separating start = .ok (tok, ⟨here.index + 1, here.depth⟩) := by
  rw [advance, h]
  refine congrArg (fun next => Except.ok (tok, next)) (if_pos ?_)
  rw [length_withEof]
  exact hlt

/-- The end of a group: both ways take a closing parenthesis or are stuck without one. -/
theorem close_agrees {start : Cursor} {i : Nat} {value : Expr} {rest : List Token}
    (hdepth : start.depth = depth) (hindex : start.index < i)
    (h : Settled s separating ⟨i, depth + 1⟩ rest) :
    SameOutcome s (Beyond s separating start)
      (match rest with
        | [] => .error ⟨.expected .rparen, []⟩
        | close :: left =>
            if close.kind = .rparen then .ok (Tree.group value, left)
            else .error ⟨.expected .rparen, close :: left⟩)
      (do
        let (_, after) ← expect s.withEof separating .rparen ⟨i, depth⟩
        .ok (.group value, after)) := by
  have hcurrent := current_of_lowered h
  rw [expect_of_current hcurrent]
  cases h with
  | atEnd last => exact .stuck ⟨.expected .rparen, []⟩
  | @atToken close left here counts after =>
      change SameOutcome s _ (if close.kind = .rparen then _ else _)
        ((if close.kind = .rparen then _ else _) >>= _)
      by_cases hclose : close.kind = .rparen
      · rw [if_pos hclose, if_pos hclose,
          advance_of_current hcurrent (List.getElem?_eq_some_iff.1 here).1]
        have hopen : close.openAfter (depth + 1) = depth := by
          rw [Token.openAfter, hclose, Nat.add_sub_cancel]
        rw [hopen] at after
        exact .ok ⟨hdepth.symm, Nat.lt_succ_of_lt hindex, after⟩
      · rw [if_neg hclose, if_neg hclose]
        exact .stuck ⟨.expected .rparen, close :: left⟩

theorem primary_of_ident {tokens : List Token} {start here next : Cursor} {tok tok' : Token}
    (hcurrent : current tokens separating start = .ok (tok, here)) (hkind : tok.kind = .ident)
    (hadvance : advance tokens separating here = .ok (tok', next)) :
    primary tokens separating readInner start = .ok (.variable tok.placed, next) := by
  rw [primary, hcurrent]
  simp only [bind, Except.bind, hkind, hadvance]

theorem primary_of_number {tokens : List Token} {start here next : Cursor} {tok tok' : Token}
    (hcurrent : current tokens separating start = .ok (tok, here)) (hkind : tok.kind = .number)
    (hadvance : advance tokens separating here = .ok (tok', next)) :
    primary tokens separating readInner start = .ok (.number tok.placed, next) := by
  rw [primary, hcurrent]
  simp only [bind, Except.bind, hkind, hadvance]

theorem primary_of_tooDeep {tokens : List Token} {start here : Cursor} {tok : Token}
    (hcurrent : current tokens separating start = .ok (tok, here)) (hkind : tok.kind = .lparen)
    (hdepth : maxNesting ≤ here.depth) :
    primary tokens separating readInner start = .error (.stuck .tooDeep tok) := by
  rw [primary, hcurrent]
  simp only [bind, Except.bind, hkind, if_pos hdepth]

theorem primary_of_lparen {tokens : List Token} {read : Read Expr} {start here inside : Cursor}
    {tok tok' : Token} (hcurrent : current tokens separating start = .ok (tok, here))
    (hkind : tok.kind = .lparen) (hdepth : here.depth < maxNesting)
    (hadvance : advance tokens separating here = .ok (tok', inside)) :
    primary tokens separating (some read) start = (do
      let (value, last) ← read ⟨inside.index, inside.depth + 1⟩
      let (_, after) ← expect tokens separating .rparen ⟨last.index, last.depth - 1⟩
      .ok (.group value, after)) := by
  rw [primary, hcurrent]
  simp only [bind, Except.bind, hkind, if_neg (Nat.not_le.2 hdepth), hadvance]

theorem primary_of_other {tokens : List Token} {start here : Cursor} {tok : Token}
    (hcurrent : current tokens separating start = .ok (tok, here)) (hident : tok.kind ≠ .ident)
    (hnumber : tok.kind ≠ .number) (hlparen : tok.kind ≠ .lparen) :
    primary tokens separating readInner start = .error (.stuck .noOperand tok) := by
  rw [primary, hcurrent]
  simp only [bind, Except.bind]

theorem primary_agrees (hinner : AgreesInside s separating depth readInner inner) :
    Agrees s separating depth (primary s.withEof separating readInner) (Reader.primary inner) := by
  intro start rest h hdepth
  obtain ⟨i, hle, hcurrent, hsettled⟩ := current_of_stands h
  cases rest with
  | nil =>
      change current s.withEof separating start = .ok (.eof s.finish, ⟨i, start.depth⟩) at hcurrent
      rw [primary_of_other hcurrent nofun nofun nofun]
      exact .stuck ⟨.noOperand, []⟩
  | cons tok after =>
      change current s.withEof separating start = .ok (tok, ⟨i, start.depth⟩) at hcurrent
      have hadvance := advance_of_settled hsettled
      by_cases hident : tok.kind = .ident
      · have hnext := hsettled.next (by simp [hident]) (by simp [hident])
        rw [Reader.run_primary_ident inner hident, primary_of_ident hcurrent hident hadvance]
        exact .ok ⟨rfl, Nat.lt_succ_of_le hle, hnext⟩
      by_cases hnumber : tok.kind = .number
      · have hnext := hsettled.next (by simp [hnumber]) (by simp [hnumber])
        rw [Reader.run_primary_number inner hnumber, primary_of_number hcurrent hnumber hadvance]
        exact .ok ⟨rfl, Nat.lt_succ_of_le hle, hnext⟩
      by_cases hlparen : tok.kind = .lparen
      · cases hinner with
        | tooDeep deepest =>
            rw [Reader.run_primary_tooDeep hlparen,
              primary_of_tooDeep hcurrent hlparen (hdepth ▸ deepest)]
            exact .stuck ⟨.tooDeep, tok :: after⟩
        | @inside read reader allowed agrees =>
            have hinside : Stands s separating ⟨i + 1, depth + 1⟩ after := by
              cases hsettled with
              | atToken here counts after =>
                  rw [Token.openAfter, hlparen] at after
                  exact hdepth ▸ after
            rw [Reader.run_primary_group reader hlparen,
              primary_of_lparen hcurrent hlparen (hdepth ▸ allowed) hadvance]
            subst hdepth
            refine (agrees _ _ hinside rfl).bind ?_
            rintro value left ⟨j, d⟩ ⟨hbeyond, hsettled'⟩
            -- what was inside has left the depth as it found it
            obtain rfl : d = start.depth + 1 := hbeyond.depth
            have hindex : i + 1 < j := hbeyond.index
            have hmoved : start.index < j := by omega
            exact close_agrees rfl hmoved hsettled'
      rw [Reader.run_primary_other inner hident hnumber hlparen,
        primary_of_other hcurrent hident hnumber hlparen]
      exact .stuck ⟨.noOperand, tok :: after⟩

theorem startsPrimary_current (rest : List Token) :
    startsPrimary (s.current rest) = Reader.startsPrimary rest := by
  cases rest <;> rfl

/-- A primary expression that follows a name is seen by looking ahead, beyond line feeds or not. -/
theorem startsPrimary_ahead {after : List Token} (h : Reader.startsPrimary after = true) :
    startsPrimary ((withoutNewlines after)[0]?.getD (.eof s.finish)) = true := by
  cases after with
  | nil => cases h
  | cons tok after =>
      have hkind : tok.kind ≠ .newline := by
        intro hnewline
        rw [Reader.startsPrimary, hnewline] at h
        cases h
      rw [withoutNewlines, List.filter_cons_of_pos (by simpa using hkind)]
      exact h

theorem plain_agrees (hprimary : Agrees s separating depth (primary s.withEof separating readInner)
    (Reader.primary inner)) {start : Cursor} {rest : List Token}
    (h : Stands s separating start rest) (hdepth : start.depth = depth) :
    SameOutcome s (Beyond s separating start)
      (do
        let value ← (Reader.primary inner).run rest
        .ok (.plain value.1, value.2))
      (plain s.withEof separating readInner start) := by
  refine (hprimary _ _ h hdepth).bind ?_
  intro value left last hlast
  exact .ok hlast

theorem Beyond.of_le {start c c' : Cursor} {rest : List Token} (h : Beyond s separating c c' rest)
    (hdepth : c.depth = start.depth) (hle : start.index ≤ c.index) :
    Beyond s separating start c' rest :=
  ⟨h.depth.trans hdepth, Nat.lt_of_le_of_lt hle h.index, h.stands⟩

/-- The arguments of a call, after its name: both ways take one, and another one if it follows. -/
theorem arguments_agree (hprimary : Agrees s separating depth
    (primary s.withEof separating readInner) (Reader.primary inner)) (name : Placed String)
    {start : Cursor} {rest : List Token} (h : Stands s separating start rest)
    (hdepth : start.depth = depth) :
    SameOutcome s (Beyond s separating start)
      (do
        let first ← (Reader.primary inner).run rest
        if Reader.startsPrimary first.2 then (do
          let second ← (Reader.primary inner).run first.2
          .ok (Tree.callTwo name first.1 second.1, second.2))
        else .ok (.callOne name first.1, first.2))
      (arguments s.withEof separating readInner name start) := by
  refine (hprimary _ _ h hdepth).bind ?_
  intro first left last hlast
  obtain ⟨i, hle, hcurrent, hsettled⟩ := current_of_stands hlast.stands
  have hindex := hlast.index
  simp only [hcurrent]
  change SameOutcome s _ (if Reader.startsPrimary left then _ else _)
    (if startsPrimary (s.current left) then _ else _)
  rw [startsPrimary_current]
  by_cases hstarts : Reader.startsPrimary left
  · rw [if_pos hstarts, if_pos hstarts]
    refine (hprimary _ _ hsettled.stands (hlast.depth.trans hdepth)).bind ?_
    intro second left' last' hlast'
    exact .ok (hlast'.of_le hlast.depth (Nat.le_trans (Nat.le_of_lt hindex) hle))
  · rw [if_neg hstarts, if_neg hstarts]
    exact .ok ⟨hlast.depth, Nat.lt_of_lt_of_le hindex hle, hsettled.stands⟩

theorem call_of_other {tokens : List Token} {start here : Cursor} {tok : Token}
    (hcurrent : current tokens separating start = .ok (tok, here)) (hident : tok.kind ≠ .ident) :
    call tokens separating readInner start = plain tokens separating readInner here := by
  rw [call, hcurrent]
  exact if_neg hident

theorem call_of_ident {tokens : List Token} {start here next here' : Cursor} {tok seen tok' : Token}
    (hcurrent : current tokens separating start = .ok (tok, here)) (hident : tok.kind = .ident)
    (hpeek : peek tokens separating 1 here = .ok (seen, here))
    (hadvance : advance tokens separating here = .ok (tok, next))
    (hnext : current tokens separating next = .ok (tok', here')) :
    call tokens separating readInner start =
      if startsPrimary seen then
        if startsPrimary tok' then arguments tokens separating readInner tok.placed here'
        else .ok (.plain (.variable tok.placed), here')
      else plain tokens separating readInner here := by
  rw [call, hcurrent]
  refine (if_pos hident).trans ?_
  rw [hpeek]
  change (if startsPrimary seen then _ else _) = _
  rw [hadvance]
  simp only [bind, Except.bind, hnext]

theorem call_agrees (hinner : AgreesInside s separating depth readInner inner) :
    Agrees s separating depth (call s.withEof separating readInner) (Reader.call inner) := by
  intro start rest h hdepth
  have hprimary := primary_agrees hinner
  obtain ⟨i, hle, hcurrent, hsettled⟩ := current_of_stands h
  have hplain : SameOutcome s (Beyond s separating start) _ _ :=
    (plain_agrees hprimary hsettled.stands hdepth).imp fun _ _ hlast => hlast.of_le rfl hle
  cases rest with
  | nil =>
      change current s.withEof separating start = .ok (.eof s.finish, ⟨i, start.depth⟩) at hcurrent
      rw [Reader.run_call_nil, call_of_other hcurrent nofun]
      exact hplain
  | cons tok after =>
      change current s.withEof separating start = .ok (tok, ⟨i, start.depth⟩) at hcurrent
      rw [Reader.run_call_cons]
      by_cases hident : tok.kind = .ident
      · have hnext := hsettled.next (by simp [hident]) (by simp [hident])
        obtain ⟨j, hle', hcurrent', hsettled'⟩ := current_of_stands hnext
        rw [call_of_ident hcurrent hident (peek_succ_of_settled hsettled 0)
          (advance_of_settled hsettled) hcurrent', startsPrimary_current]
        have hmoved : start.index < j := Nat.lt_of_le_of_lt hle hle'
        by_cases hstarts : Reader.startsPrimary after = true
        · rw [if_pos ⟨hident, hstarts⟩, if_pos (startsPrimary_ahead hstarts), if_pos hstarts]
          refine (arguments_agree hprimary tok.placed hsettled'.stands hdepth).imp ?_
          intro last left hlast
          exact hlast.of_le rfl (Nat.le_of_lt hmoved)
        · rw [if_neg fun hcall => hstarts hcall.2, if_neg hstarts]
          split
          · -- what looked like an argument stands on another line
            rw [Reader.run_primary_ident inner hident]
            exact .ok ⟨rfl, hmoved, hsettled'.stands⟩
          · exact hplain
      · rw [if_neg fun hcall => hident hcall.1, call_of_other hcurrent hident]
        exact hplain

end Primary

/-! Signs, sums and nesting -/

theorem signed_of_minus {tokens : List Token} {power : Read (Tree (.chain .power))}
    {start here next : Cursor} {tok tok' : Token}
    (hcurrent : current tokens separating start = .ok (tok, here)) (hminus : tok.kind = .minus)
    (hadvance : advance tokens separating here = .ok (tok', next)) :
    signed tokens separating power start = (do
      let (value, after) ← power next
      .ok (.signed true value, after)) := by
  rw [signed, hcurrent]
  refine (if_pos hminus).trans ?_
  rw [hadvance]
  rfl

theorem signed_of_other {tokens : List Token} {power : Read (Tree (.chain .power))}
    {start here : Cursor} {tok : Token}
    (hcurrent : current tokens separating start = .ok (tok, here)) (hminus : tok.kind ≠ .minus) :
    signed tokens separating power start = (do
      let (value, after) ← power here
      .ok (.signed false value, after)) := by
  rw [signed, hcurrent]
  exact if_neg hminus

theorem signed_agrees {depth : Nat} {read : Read (Tree (.chain .power))}
    {power : Reader (Tree (.chain .power))} (hpower : Agrees s separating depth read power)
    (hnil : power.run [] = .error ⟨.noOperand, []⟩) :
    Agrees s separating depth (signed s.withEof separating read) (Reader.signed power) := by
  intro start rest h hdepth
  obtain ⟨i, hle, hcurrent, hsettled⟩ := current_of_stands h
  have hunsigned := hpower _ _ hsettled.stands hdepth
  cases rest with
  | nil =>
      change current s.withEof separating start = .ok (.eof s.finish, ⟨i, start.depth⟩) at hcurrent
      -- at the end there is no sign, and the reader is stuck at once where a power is
      rw [hnil] at hunsigned
      rw [Reader.run_signed_nil, signed_of_other hcurrent nofun]
      generalize read ⟨i, start.depth⟩ = outcome at hunsigned
      cases hunsigned with
      | stuck _ => exact .stuck ⟨.noOperand, []⟩
  | cons tok after =>
      change current s.withEof separating start = .ok (tok, ⟨i, start.depth⟩) at hcurrent
      rw [Reader.run_signed_cons]
      by_cases hminus : tok.kind = .minus
      · have hnext := hsettled.next (by simp [hminus]) (by simp [hminus])
        rw [if_pos hminus, signed_of_minus hcurrent hminus (advance_of_settled hsettled)]
        refine (hpower _ _ hnext hdepth).bind ?_
        intro value left last hlast
        exact .ok (hlast.of_le rfl (Nat.le_succ_of_le hle))
      · rw [if_neg hminus, signed_of_other hcurrent hminus]
        refine hunsigned.bind ?_
        intro value left last hlast
        exact .ok (hlast.of_le rfl hle)

theorem run_power_nil (inner : Option (Reader Expr)) :
    (Reader.chain .power (Reader.call inner)).run [] = .error ⟨.noOperand, []⟩ := by
  rw [Reader.run_chain, Reader.run_call_nil]
  rfl

theorem sum_agrees {depth : Nat} {read : Option (Read Expr)} {inner : Option (Reader Expr)}
    (hinner : AgreesInside s separating depth read inner) :
    AgreesSettled s separating depth (sum s.withEof separating read) (Reader.sum inner) := by
  have hpower := chain_agrees (c := .power) (call_agrees hinner)
  have hsigned := signed_agrees hpower.agrees (run_power_nil inner)
  have hproduct := chain_agrees (c := .product) hsigned
  exact chain_agrees (c := .sum) hproduct.agrees

theorem nested_agrees {levels depth : Nat} (h : depth + levels = maxNesting) :
    AgreesInside s separating depth (nested s.withEof separating levels)
      (Reader.nested levels) := by
  induction levels generalizing depth with
  | zero => exact .tooDeep (by omega)
  | succ levels ih => exact .inside (by omega) (sum_agrees (ih (by omega)))

/-- Both ways of reading expressions outside parentheses agree. -/
theorem expr_agrees :
    AgreesSettled s separating 0 (expr s.withEof separating) Reader.expr :=
  sum_agrees (nested_agrees (Nat.zero_add _))

end Expressions

end Cursor

end FlightCurve

import FlightCurve.Outcome
import FlightCurve.Proofs.Flattening

/-!
Readers and derivations. A reader is sound if the tokens that it takes fit the tree that it builds,
and complete if it builds every tree from tokens that fit it, as long as the next token cannot
continue what the rule derives.

The main fact is that the reader of expressions is both, up to the deepest nesting that is accepted.
So it finds the tree of an expression if there is one, and there is only one.
-/

namespace FlightCurve

/-! What may follow -/

namespace Rule

/-- The kinds of the tokens that begin a primary expression. -/
def primaryStarts : List Kind := [.lparen, .ident, .number]

/-- The kinds of the tokens that continue what a rule has derived so far: operators of the chains
that it may end in, and the next argument of a call. -/
def continuations : Rule → List Kind
  | .primary => []
  | .call => primaryStarts
  | .signed => Chain.power.operators ++ primaryStarts
  | .chain .power => Chain.power.operators ++ primaryStarts
  | .chain .product => Chain.product.operators ++ (Chain.power.operators ++ primaryStarts)
  | .chain .sum =>
      Chain.sum.operators ++ (Chain.product.operators ++ (Chain.power.operators ++ primaryStarts))

theorem continuations_chain (c : Chain) :
    (Rule.chain c).continuations = c.operators ++ c.operand.continuations := by
  cases c <;> rfl

/-- The next of the tokens, if there is one, does not continue what the rule has derived. -/
def EndsBefore (r : Rule) (rest : List Token) : Prop :=
  ∀ tok ∈ rest.head?, tok.kind ∉ r.continuations

theorem endsBefore_nil (r : Rule) : r.EndsBefore [] := by
  intro tok h
  cases h

theorem endsBefore_cons {r : Rule} {tok : Token} {rest : List Token}
    (h : tok.kind ∉ r.continuations) : r.EndsBefore (tok :: rest) := by
  intro other hother
  cases hother
  exact h

theorem endsBefore_primary (rest : List Token) : primary.EndsBefore rest := by
  intro tok _
  simp [continuations]

theorem EndsBefore.operand {c : Chain} {rest : List Token} (h : (Rule.chain c).EndsBefore rest) :
    c.operand.EndsBefore rest := by
  intro tok htok hmem
  refine h tok htok ?_
  rw [continuations_chain]
  exact List.mem_append_right _ hmem

theorem EndsBefore.op?_eq_none {c : Chain} {tok : Token} {rest : List Token}
    (h : (Rule.chain c).EndsBefore (tok :: rest)) : c.op? tok.kind = none := by
  cases hop : c.op? tok.kind with
  | none => rfl
  | some op =>
      have hmem : tok.kind ∈ c.operators := (c.op?_isSome_iff _).1 ⟨op, hop⟩
      refine absurd ?_ (h tok rfl)
      rw [continuations_chain]
      exact List.mem_append_left _ hmem

/-- An operator of a chain does not continue the operand before it. -/
theorem endsBefore_operator {c : Chain} {tok : Token} (op : c.Op) (htok : tok.kind = c.opKind op)
    (rest : List Token) : c.operand.EndsBefore (tok :: rest) := by
  refine endsBefore_cons ?_
  rw [htok]
  cases c <;> cases op <;> decide

theorem EndsBefore.startsPrimary {rest : List Token} (h : call.EndsBefore rest) :
    Reader.startsPrimary rest = false := by
  cases rest with
  | nil => rfl
  | cons tok rest =>
      have hkind : tok.kind ∉ primaryStarts := h tok rfl
      simpa [Reader.startsPrimary, primaryStarts, not_or, and_assoc] using hkind

end Rule

/-! How the tokens of a tree begin -/

namespace Tree

theorem head_of_primary (tree : Tree .primary) {ts : List Token} (h : Fit tree.flatten ts) :
    ∃ tok us, ts = tok :: us ∧ tok.kind ∈ Rule.primaryStarts ∧ (tok.kind = .ident → us = []) := by
  match tree, h with
  | .group inner, h =>
      obtain ⟨left, us, right, rfl, hleft, _, _⟩ := fit_group h
      refine ⟨left, us ++ [right], rfl, ?_, ?_⟩
      · simp [hleft, Rule.primaryStarts]
      · simp [hleft]
  | .variable name, h =>
      obtain ⟨tok, rfl, hident, _⟩ := fit_variable h
      exact ⟨tok, [], rfl, by simp [hident, Rule.primaryStarts], fun _ => rfl⟩
  | .number literal, h =>
      obtain ⟨tok, rfl, hnumber, _⟩ := fit_number h
      exact ⟨tok, [], rfl, by simp [hnumber, Rule.primaryStarts], fun _ => rfl⟩

theorem head_of_call (tree : Tree .call) {ts : List Token} (h : Fit tree.flatten ts) :
    ∃ tok us, ts = tok :: us ∧ tok.kind ∈ Rule.primaryStarts := by
  match tree, h with
  | .callOne name argument, h =>
      obtain ⟨tok, us, rfl, hident, _⟩ := fit_callOne h
      exact ⟨tok, us, rfl, by simp [hident, Rule.primaryStarts]⟩
  | .callTwo name first second, h =>
      obtain ⟨tok, us, vs, rfl, hident, _⟩ := fit_callTwo h
      exact ⟨tok, us ++ vs, rfl, by simp [hident, Rule.primaryStarts]⟩
  | .plain primary, h =>
      obtain ⟨tok, us, rfl, hstarts, _⟩ := head_of_primary primary h
      exact ⟨tok, us, rfl, hstarts⟩

theorem head_of_power (tree : Tree (.chain .power)) {ts : List Token} (h : Fit tree.flatten ts) :
    ∃ tok us, ts = tok :: us ∧ tok.kind ∈ Rule.primaryStarts := by
  match tree, h with
  | .chain first rest, h =>
      obtain ⟨us, vs, rfl, hus, _⟩ := fit_chain h
      obtain ⟨tok, us', rfl, hstarts⟩ := head_of_call first hus
      exact ⟨tok, us' ++ vs, rfl, hstarts⟩

end Tree

namespace Reader

theorem startsPrimary_of_fit {tree : Tree .primary} {ts : List Token} (h : Fit tree.flatten ts)
    (rest : List Token) : startsPrimary (ts ++ rest) = true := by
  obtain ⟨tok, us, rfl, hstarts, _⟩ := tree.head_of_primary h
  simpa [startsPrimary, Rule.primaryStarts, or_assoc] using hstarts

/-! Readers without the bounds on what they leave -/

/-- What a reader builds and what it leaves. -/
def run {α : Type} (read : Reader α) (input : List Token) : Except Stuck (α × List Token) :=
  (read input).map fun r => (r.value, r.rest)

def tailRun (c : Chain) (operand : Reader (Tree c.operand)) (input : List Token) :
    Except Stuck (Tail c × List Token) :=
  (tail c operand input).map (·.1)

theorem length_lt_of_run {α : Type} {read : Reader α} {input rest : List Token} {value : α}
    (h : read.run input = .ok (value, rest)) : rest.length < input.length := by
  unfold run at h
  cases hread : read input with
  | error stuck =>
      rw [hread] at h
      cases h
  | ok reading =>
      rw [hread] at h
      cases h
      exact reading.shorter

section Equations

variable (c : Chain) (operand : Reader (Tree c.operand)) (inner : Option (Reader Expr))

theorem tailRun_nil : tailRun c operand [] = .ok (.done, []) := by
  rw [tailRun, tail]
  rfl

theorem tailRun_cons (tok : Token) (after : List Token) :
    tailRun c operand (tok :: after) =
      match c.op? tok.kind with
      | none => .ok (.done, tok :: after)
      | some op => (do
          let next ← operand.run after
          let others ← tailRun c operand next.2
          .ok (.step ⟨op, tok.position⟩ next.1 others.1, others.2)) := by
  rw [tailRun, tail, run]
  cases c.op? tok.kind with
  | none => rfl
  | some op =>
      cases operand after with
      | error stuck => rfl
      | ok next =>
          simp only [Except.map]
          change _ = (tailRun c operand next.rest).bind _
          rw [tailRun]
          cases tail c operand next.rest <;> rfl

theorem run_chain (input : List Token) :
    (chain c operand).run input = (do
      let first ← operand.run input
      let others ← tailRun c operand first.2
      .ok (.chain first.1 others.1, others.2)) := by
  rw [run, chain, run]
  cases operand input with
  | error stuck => rfl
  | ok first =>
      change _ = (tailRun c operand first.rest).bind _
      rw [tailRun]
      simp only
      cases tail c operand first.rest <;> rfl

theorem run_primary_nil : (primary inner).run [] = .error ⟨.noOperand, []⟩ := rfl

theorem run_primary_ident {tok : Token} (h : tok.kind = .ident) (after : List Token) :
    (primary inner).run (tok :: after) = .ok (.variable tok.placed, after) := by
  simp [run, primary, h, Except.map]

theorem run_primary_number {tok : Token} (h : tok.kind = .number) (after : List Token) :
    (primary inner).run (tok :: after) = .ok (.number tok.placed, after) := by
  simp [run, primary, h, Except.map]

theorem run_primary_tooDeep {tok : Token} (h : tok.kind = .lparen) (after : List Token) :
    (primary none).run (tok :: after) = .error ⟨.tooDeep, tok :: after⟩ := by
  simp [run, primary, h, Except.map]

theorem run_primary_group (read : Reader Expr) {tok : Token} (h : tok.kind = .lparen)
    (after : List Token) :
    (primary (some read)).run (tok :: after) = (do
      let value ← read.run after
      match value.2 with
      | [] => .error ⟨.expected .rparen, []⟩
      | close :: left =>
          if close.kind = .rparen then .ok (.group value.1, left)
          else .error ⟨.expected .rparen, close :: left⟩) := by
  simp only [run, primary, h]
  cases read after with
  | error stuck => rfl
  | ok value =>
      obtain ⟨value, rest, shorter⟩ := value
      cases rest with
      | nil => rfl
      | cons close left =>
          by_cases hclose : close.kind = .rparen <;> simp [hclose, Except.map, bind, Except.bind]

theorem run_primary_other {tok : Token} (hident : tok.kind ≠ .ident) (hnumber : tok.kind ≠ .number)
    (hlparen : tok.kind ≠ .lparen) (after : List Token) :
    (primary inner).run (tok :: after) = .error ⟨.noOperand, tok :: after⟩ := by
  unfold run primary
  simp only
  split
  · contradiction
  · contradiction
  · contradiction
  · contradiction
  · rfl

theorem run_call_nil : (call inner).run [] = .error ⟨.noOperand, []⟩ := rfl

theorem run_call_cons (tok : Token) (after : List Token) :
    (call inner).run (tok :: after) =
      if tok.kind = .ident ∧ startsPrimary after then (do
        let first ← (primary inner).run after
        if startsPrimary first.2 then (do
          let second ← (primary inner).run first.2
          .ok (.callTwo tok.placed first.1 second.1, second.2))
        else .ok (.callOne tok.placed first.1, first.2))
      else (do
        let value ← (primary inner).run (tok :: after)
        .ok (.plain value.1, value.2)) := by
  rw [run, call]
  split
  · rw [run]
    cases primary inner after with
    | error stuck => rfl
    | ok first =>
        cases hstarts : startsPrimary first.rest with
        | true =>
            simp only [Except.map, bind, Except.bind, hstarts, if_true]
            rw [run]
            cases primary inner first.rest <;> rfl
        | false => simp [Except.map, bind, Except.bind, hstarts]
  · rw [run]
    cases primary inner (tok :: after) <;> rfl

theorem run_signed_nil (power : Reader (Tree (.chain .power))) :
    (signed power).run [] = .error ⟨.noOperand, []⟩ := rfl

theorem run_signed_cons (power : Reader (Tree (.chain .power))) (tok : Token)
    (after : List Token) :
    (signed power).run (tok :: after) =
      if tok.kind = .minus then (do
        let value ← power.run after
        .ok (.signed true value.1, value.2))
      else (do
        let value ← power.run (tok :: after)
        .ok (.signed false value.1, value.2)) := by
  rw [run, signed]
  split
  · rw [run]
    cases power after <;> rfl
  · rw [run]
    cases power (tok :: after) <;> rfl

end Equations

/-! Sound and complete readers -/

/-- The reader takes only tokens that fit the tree that it builds. -/
def Sound {r : Rule} (depth : Nat) (read : Reader (Tree r)) : Prop :=
  ∀ {input : List Token} {tree : Tree r} {rest : List Token}, (∀ tok ∈ input, tok.Spelled) →
    read.run input = .ok (tree, rest) →
    ∃ taken, input = taken ++ rest ∧ Fit tree.flatten taken ∧ tree.nesting ≤ depth

/-- The reader builds every tree from tokens that fit it, if the next token does not continue it. -/
def Complete {r : Rule} (depth : Nat) (read : Reader (Tree r)) : Prop :=
  ∀ {tree : Tree r} {taken rest : List Token}, Fit tree.flatten taken → tree.nesting ≤ depth →
    r.EndsBefore rest → read.run (taken ++ rest) = .ok (tree, rest)

theorem spelled_rest {taken rest input : List Token} (hspelled : ∀ tok ∈ input, tok.Spelled)
    (hinput : input = taken ++ rest) : ∀ tok ∈ rest, tok.Spelled := by
  intro tok htok
  exact hspelled tok (hinput ▸ List.mem_append_right taken htok)

section Chains

variable {c : Chain} {depth : Nat} {operand : Reader (Tree c.operand)}

theorem tail_sound (hoperand : operand.Sound depth) {input : List Token} {tail : Tail c}
    {rest : List Token} (hspelled : ∀ tok ∈ input, tok.Spelled)
    (hread : tailRun c operand input = .ok (tail, rest)) :
    ∃ taken, input = taken ++ rest ∧ Fit tail.flatten taken ∧ tail.nesting ≤ depth := by
  -- the rest of a chain is read from fewer tokens, since an operator stands before each operand
  induction hlength : input.length using Nat.strongRecOn generalizing input tail with
  | _ n ih =>
      cases input with
      | nil =>
          rw [tailRun_nil] at hread
          cases hread
          exact ⟨[], rfl, .nil, Nat.zero_le depth⟩
      | cons tok after =>
          rw [tailRun_cons] at hread
          split at hread
          · cases hread
            exact ⟨[], rfl, .nil, Nat.zero_le depth⟩
          · rename_i op hop
            obtain ⟨⟨first, more⟩, hfirst, hread⟩ := Outcome.bind_eq_ok_iff.1 hread
            obtain ⟨⟨others, left⟩, hothers, hread⟩ := Outcome.bind_eq_ok_iff.1 hread
            cases hread
            rw [List.forall_mem_cons] at hspelled
            obtain ⟨us, hus, hfit, hnesting⟩ := hoperand hspelled.2 hfirst
            have hlt : more.length < n := by
              have := length_lt_of_run hfirst
              rw [List.length_cons] at hlength
              omega
            obtain ⟨vs, hvs, hfit', hnesting'⟩ :=
              ih more.length hlt (spelled_rest hspelled.2 hus) hothers rfl
            refine ⟨tok :: (us ++ vs), ?_, ?_, Nat.max_le.2 ⟨hnesting, hnesting'⟩⟩
            · rw [List.cons_append, List.append_assoc, ← hvs, ← hus]
            · rw [Tail.flatten]
              exact .cons (Leaf.fits_operator hspelled.1 hop) (List.rel_append hfit hfit')

/-- After an operand there is an operator, or what follows the whole chain. -/
theorem endsBefore_tail {tail : Tail c} {taken rest : List Token} (hfit : Fit tail.flatten taken)
    (hrest : (Rule.chain c).EndsBefore rest) : c.operand.EndsBefore (taken ++ rest) := by
  cases tail with
  | done =>
      obtain rfl := List.forall₂_nil_left_iff.1 hfit
      exact hrest.operand
  | step op first others =>
      obtain ⟨tok, us, vs, rfl, hkind, _⟩ := Tail.fit_step hfit
      exact Rule.endsBefore_operator op.value hkind _

theorem tail_complete (hoperand : operand.Complete depth) (tail : Tail c) {taken rest : List Token}
    (hfit : Fit tail.flatten taken) (hnesting : tail.nesting ≤ depth)
    (hrest : (Rule.chain c).EndsBefore rest) :
    tailRun c operand (taken ++ rest) = .ok (tail, rest) := by
  match tail, hfit, hnesting with
  | .done, hfit, _ =>
      obtain rfl := List.forall₂_nil_left_iff.1 hfit
      cases rest with
      | nil => exact tailRun_nil c operand
      | cons tok rest => rw [List.nil_append, tailRun_cons, hrest.op?_eq_none]
  | .step op first others, hfit, hnesting =>
      obtain ⟨tok, us, vs, rfl, hkind, hposition, hus, hvs⟩ := Tail.fit_step hfit
      obtain ⟨hfirst, hothers⟩ := Nat.max_le.1 hnesting
      have hread : operand.run (us ++ (vs ++ rest)) = .ok (first, vs ++ rest) :=
        hoperand hus hfirst (endsBefore_tail hvs hrest)
      have hreads := tail_complete hoperand others hvs hothers hrest
      rw [List.cons_append, List.append_assoc, tailRun_cons, hkind, Chain.op?_opKind, hread]
      simp only [bind, Except.bind]
      rw [hreads, hposition]

theorem chain_sound (hoperand : operand.Sound depth) : (chain c operand).Sound depth := by
  intro input tree rest hspelled hread
  rw [run_chain] at hread
  obtain ⟨⟨first, more⟩, hfirst, hread⟩ := Outcome.bind_eq_ok_iff.1 hread
  obtain ⟨⟨others, left⟩, hothers, hread⟩ := Outcome.bind_eq_ok_iff.1 hread
  cases hread
  obtain ⟨us, hus, hfit, hnesting⟩ := hoperand hspelled hfirst
  obtain ⟨vs, hvs, hfit', hnesting'⟩ := tail_sound hoperand (spelled_rest hspelled hus) hothers
  refine ⟨us ++ vs, ?_, List.rel_append hfit hfit', Nat.max_le.2 ⟨hnesting, hnesting'⟩⟩
  rw [List.append_assoc, ← hvs, ← hus]

theorem chain_complete (hoperand : operand.Complete depth) : (chain c operand).Complete depth := by
  intro tree taken rest hfit hnesting hrest
  match tree, hfit, hnesting with
  | .chain first others, hfit, hnesting =>
      obtain ⟨us, vs, rfl, hus, hvs⟩ := Tree.fit_chain hfit
      obtain ⟨hfirst, hothers⟩ := Nat.max_le.1 hnesting
      have hread : operand.run (us ++ (vs ++ rest)) = .ok (first, vs ++ rest) :=
        hoperand hus hfirst (endsBefore_tail hvs hrest)
      rw [List.append_assoc, run_chain, hread]
      simp only [bind, Except.bind]
      rw [tail_complete hoperand others hvs hothers hrest]

end Chains

section Expressions

variable {depth : Nat}

theorem signed_sound {power : Reader (Tree (.chain .power))} (hpower : power.Sound depth) :
    (signed power).Sound depth := by
  intro input tree rest hspelled hread
  cases input with
  | nil =>
      rw [run_signed_nil] at hread
      cases hread
  | cons tok after =>
      rw [run_signed_cons] at hread
      split at hread
      · rename_i hminus
        obtain ⟨⟨operand, left⟩, hoperand, hread⟩ := Outcome.bind_eq_ok_iff.1 hread
        cases hread
        rw [List.forall_mem_cons] at hspelled
        obtain ⟨us, rfl, hfit, hnesting⟩ := hpower hspelled.2 hoperand
        exact ⟨tok :: us, rfl, .cons (Leaf.fits_sign hspelled.1 hminus) hfit, hnesting⟩
      · obtain ⟨⟨operand, left⟩, hoperand, hread⟩ := Outcome.bind_eq_ok_iff.1 hread
        cases hread
        exact hpower hspelled hoperand

theorem signed_complete {power : Reader (Tree (.chain .power))} (hpower : power.Complete depth) :
    (signed power).Complete depth := by
  intro tree taken rest hfit hnesting hrest
  match tree, hfit, hnesting with
  | .signed true operand, hfit, hnesting =>
      obtain ⟨sign, us, rfl, hsign, hus⟩ := Tree.fit_negated hfit
      rw [List.cons_append, run_signed_cons, if_pos hsign, hpower hus hnesting hrest]
      rfl
  | .signed false operand, hfit, hnesting =>
      -- no power begins with a minus sign, so none is taken for a sign
      obtain ⟨tok, us, rfl, hstarts⟩ := operand.head_of_power hfit
      have hminus : tok.kind ≠ .minus := by
        intro h
        simp [h, Rule.primaryStarts] at hstarts
      have hread : power.run (tok :: (us ++ rest)) = .ok (operand, rest) :=
        hpower hfit hnesting hrest
      rw [List.cons_append, run_signed_cons, if_neg hminus, hread]
      rfl

/-- The readers for expressions in parentheses are sound one level below `depth`. -/
theorem primary_sound (hinner : ∀ d, depth = d + 1 → (sum (nested d)).Sound d) :
    (primary (nested depth)).Sound depth := by
  intro input tree rest hspelled hread
  cases input with
  | nil =>
      rw [run_primary_nil] at hread
      cases hread
  | cons tok after =>
      rw [List.forall_mem_cons] at hspelled
      by_cases hident : tok.kind = .ident
      · rw [run_primary_ident _ hident] at hread
        cases hread
        exact ⟨[tok], rfl, .cons (Leaf.fits_placed hident) .nil, Nat.zero_le depth⟩
      by_cases hnumber : tok.kind = .number
      · rw [run_primary_number _ hnumber] at hread
        cases hread
        exact ⟨[tok], rfl, .cons (Leaf.fits_placed hnumber) .nil, Nat.zero_le depth⟩
      by_cases hlparen : tok.kind = .lparen
      · cases depth with
        | zero =>
            rw [nested, run_primary_tooDeep hlparen] at hread
            cases hread
        | succ d =>
            rw [nested, run_primary_group _ hlparen] at hread
            obtain ⟨⟨inner, more⟩, hinside, hafter⟩ := Outcome.bind_eq_ok_iff.1 hread
            obtain ⟨us, rfl, hfit, hnesting⟩ := hinner d rfl hspelled.2 hinside
            cases more with
            | nil => cases hafter
            | cons close left =>
                simp only at hafter
                split at hafter
                · rename_i hclose
                  cases hafter
                  refine ⟨tok :: (us ++ [close]), ?_, ?_, Nat.succ_le_succ hnesting⟩
                  · rw [List.cons_append, List.append_assoc]
                    rfl
                  · have hright : close.Spelled :=
                      spelled_rest hspelled.2 rfl close List.mem_cons_self
                    rw [Tree.flatten]
                    exact .cons (Leaf.fits_left hspelled.1 hlparen)
                      (List.rel_append hfit (.cons (Leaf.fits_right hright hclose) .nil))
                · cases hafter
      · rw [run_primary_other _ hident hnumber hlparen] at hread
        cases hread

theorem primary_complete (hinner : ∀ d, depth = d + 1 → (sum (nested d)).Complete d) :
    (primary (nested depth)).Complete depth := by
  intro tree taken rest hfit hnesting _
  match tree, hfit, hnesting with
  | .group inner, hfit, hnesting =>
      obtain ⟨left, us, right, rfl, hleft, hus, hright⟩ := Tree.fit_group hfit
      cases depth with
      | zero => exact absurd hnesting (Nat.not_succ_le_zero _)
      | succ d =>
          -- the closing parenthesis does not continue the expression inside
          have hclose : (Rule.chain .sum).EndsBefore (right :: rest) := by
            refine Rule.endsBefore_cons ?_
            rw [hright]
            decide
          have hread : (sum (nested d)).run (us ++ right :: rest) = .ok (inner, right :: rest) :=
            hinner d rfl hus (Nat.le_of_succ_le_succ hnesting) hclose
          rw [List.cons_append, List.append_assoc, List.singleton_append, nested,
            run_primary_group _ hleft, hread]
          simp [bind, Except.bind, hright]
  | .variable name, hfit, _ =>
      obtain ⟨tok, rfl, hident, rfl⟩ := Tree.fit_variable hfit
      exact run_primary_ident _ hident rest
  | .number literal, hfit, _ =>
      obtain ⟨tok, rfl, hnumber, rfl⟩ := Tree.fit_number hfit
      exact run_primary_number _ hnumber rest

variable {inner : Option (Reader Expr)}

theorem call_sound (hprimary : (primary inner).Sound depth) : (call inner).Sound depth := by
  intro input tree rest hspelled hread
  cases input with
  | nil =>
      rw [run_call_nil] at hread
      cases hread
  | cons tok after =>
      rw [run_call_cons] at hread
      split at hread
      · rename_i hcall
        rw [List.forall_mem_cons] at hspelled
        obtain ⟨⟨first, more⟩, hfirst, hafter⟩ := Outcome.bind_eq_ok_iff.1 hread
        obtain ⟨us, rfl, hfit, hnesting⟩ := hprimary hspelled.2 hfirst
        split at hafter
        · obtain ⟨⟨second, left⟩, hsecond, hafter⟩ := Outcome.bind_eq_ok_iff.1 hafter
          cases hafter
          obtain ⟨vs, hvs, hfit', hnesting'⟩ := hprimary (spelled_rest hspelled.2 rfl) hsecond
          refine ⟨tok :: (us ++ vs), ?_, ?_, Nat.max_le.2 ⟨hnesting, hnesting'⟩⟩
          · rw [List.cons_append, List.append_assoc, ← hvs]
          · exact .cons (Leaf.fits_placed hcall.1) (List.rel_append hfit hfit')
        · cases hafter
          exact ⟨tok :: us, rfl, .cons (Leaf.fits_placed hcall.1) hfit, hnesting⟩
      · obtain ⟨⟨value, left⟩, hvalue, hread⟩ := Outcome.bind_eq_ok_iff.1 hread
        cases hread
        exact hprimary hspelled hvalue

theorem call_complete (hprimary : (primary inner).Complete depth) :
    (call inner).Complete depth := by
  intro tree taken rest hfit hnesting hrest
  match tree, hfit, hnesting with
  | .callOne name argument, hfit, hnesting =>
      obtain ⟨tok, us, rfl, hident, rfl, hus⟩ := Tree.fit_callOne hfit
      have hread : (primary inner).run (us ++ rest) = .ok (argument, rest) :=
        hprimary hus hnesting (Rule.endsBefore_primary rest)
      rw [List.cons_append, run_call_cons, if_pos ⟨hident, startsPrimary_of_fit hus rest⟩, hread]
      simp [bind, Except.bind, hrest.startsPrimary]
  | .callTwo name first second, hfit, hnesting =>
      obtain ⟨tok, us, vs, rfl, hident, rfl, hus, hvs⟩ := Tree.fit_callTwo hfit
      obtain ⟨hfirst, hsecond⟩ := Nat.max_le.1 hnesting
      have hread : (primary inner).run (us ++ (vs ++ rest)) = .ok (first, vs ++ rest) :=
        hprimary hus hfirst (Rule.endsBefore_primary _)
      have hread' : (primary inner).run (vs ++ rest) = .ok (second, rest) :=
        hprimary hvs hsecond (Rule.endsBefore_primary rest)
      rw [List.cons_append, List.append_assoc, run_call_cons,
        if_pos ⟨hident, startsPrimary_of_fit hus _⟩, hread]
      simp [bind, Except.bind, startsPrimary_of_fit hvs rest, hread']
  | .plain value, hfit, hnesting =>
      obtain ⟨tok, us, rfl, _, halone⟩ := value.head_of_primary hfit
      -- a name that stands alone is not called: what follows it begins no primary expression
      have hplain : ¬(tok.kind = .ident ∧ startsPrimary (us ++ rest) = true) := by
        rintro ⟨hident, hstarts⟩
        rw [halone hident, List.nil_append, hrest.startsPrimary] at hstarts
        cases hstarts
      have hread : (primary inner).run (tok :: (us ++ rest)) = .ok (value, rest) :=
        hprimary hfit hnesting (Rule.endsBefore_primary rest)
      rw [List.cons_append, run_call_cons, if_neg hplain, hread]
      rfl

end Expressions

/-- The reader of sums with parentheses nested `depth` deep takes only what fits its tree. -/
theorem sum_sound (depth : Nat) : (sum (nested depth)).Sound depth := by
  -- every rule hands the bound on to the next one; only groups lower it
  induction depth with
  | zero =>
      refine chain_sound (chain_sound (signed_sound (chain_sound (call_sound (primary_sound ?_)))))
      intro d hd
      cases hd
  | succ depth ih =>
      refine chain_sound (chain_sound (signed_sound (chain_sound (call_sound (primary_sound ?_)))))
      intro d hd
      cases hd
      exact ih

theorem sum_complete (depth : Nat) : (sum (nested depth)).Complete depth := by
  induction depth with
  | zero =>
      refine chain_complete (chain_complete (signed_complete (chain_complete
        (call_complete (primary_complete ?_)))))
      intro d hd
      cases hd
  | succ depth ih =>
      refine chain_complete (chain_complete (signed_complete (chain_complete
        (call_complete (primary_complete ?_)))))
      intro d hd
      cases hd
      exact ih

theorem expr_sound : expr.Sound maxNesting := sum_sound maxNesting

theorem expr_complete : expr.Complete maxNesting := sum_complete maxNesting

end Reader

/-! Expressions -/

theorem isExpr_of_fit {e : Expr} {ts : List Token} (hfit : Fit e.flatten ts)
    (hnesting : e.nesting ≤ maxNesting) : IsExpr ts where
  derives := e.derives_of_fit hfit
  nesting := by rwa [e.mostOpen_of_fit hfit]

theorem IsExpr.nesting_le {e : Expr} {ts : List Token} (h : IsExpr ts) (hfit : Fit e.flatten ts) :
    e.nesting ≤ maxNesting := by
  rw [← e.mostOpen_of_fit hfit]
  exact h.nesting

theorem IsExpr.exists_tree {ts : List Token} (h : IsExpr ts)
    (hspelled : ∀ tok ∈ ts, tok.Spelled) :
    ∃ e : Expr, Fit e.flatten ts ∧ e.nesting ≤ maxNesting := by
  obtain ⟨e, hfit⟩ := h.derives.exists_tree hspelled
  exact ⟨e, hfit, h.nesting_le hfit⟩

/-- Tokens are the flattening of one expression at most. -/
theorem Expr.eq_of_fit {e e' : Expr} {ts : List Token} (h : Fit e.flatten ts)
    (h' : Fit e'.flatten ts) : e' = e := by
  -- both nest as deep as their tokens do, so there is one reader that builds both
  have hread := Reader.sum_complete e.nesting h (Nat.le_refl _) (Rule.endsBefore_nil _)
  have hnesting : e'.nesting ≤ e.nesting :=
    Nat.le_of_eq ((e'.mostOpen_of_fit h').symm.trans (e.mostOpen_of_fit h))
  have hread' := Reader.sum_complete e.nesting h' hnesting (Rule.endsBefore_nil _)
  rw [hread] at hread'
  cases hread'
  rfl

end FlightCurve

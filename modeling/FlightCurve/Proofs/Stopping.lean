import FlightCurve.Proofs.Reading

/-!
Where readers stop. What a reader does is decided by the tokens that it takes and the one after
them, so it does the same on every input that begins with these. Every reader of the grammar hands
this on from the readers that it is built from, so the main fact is that the reader of expressions
is steady.
-/

namespace FlightCurve

namespace Reader

/-! Steady readers -/

section Steady

variable {α β : Type}

/-- The outcome of a reading that stops with `rest` before it. -/
def stopped (rest : List Token) : Except Reason α → Except Stuck (α × List Token)
  | .ok value => .ok (value, rest)
  | .error reason => .error ⟨reason, rest⟩

/-- What is done with an input is decided by the tokens taken from it and the one after them. -/
def Steady (read : List Token → Except Stuck (α × List Token)) (input : List Token) : Prop :=
  ∃ taken rest outcome, input = taken ++ rest ∧
    ∀ rest' : List Token, rest'.head? = rest.head? → read (taken ++ rest') = stopped rest' outcome

theorem steady_ok (value : α) (input : List Token) :
    Steady (fun input => .ok (value, input)) input :=
  ⟨[], input, .ok value, rfl, fun _ _ => rfl⟩

theorem steady_error (reason : Reason) (input : List Token) :
    Steady (fun input => (.error ⟨reason, input⟩ : Except Stuck (α × List Token))) input :=
  ⟨[], input, .error reason, rfl, fun _ _ => rfl⟩

namespace Steady

variable {read read' : List Token → Except Stuck (α × List Token)} {input : List Token}

/-- A reading that starts by taking a token. -/
theorem cons {tok : Token} (h : Steady read' input)
    (hread : ∀ after, read (tok :: after) = read' after) : Steady read (tok :: input) := by
  obtain ⟨taken, rest, outcome, rfl, hstop⟩ := h
  refine ⟨tok :: taken, rest, outcome, rfl, fun rest' hhead => ?_⟩
  rw [List.cons_append, hread]
  exact hstop rest' hhead

/-- A reading that starts by looking at a token. -/
theorem congr_head (h : Steady read' input)
    (hread : ∀ input' : List Token, input'.head? = input.head? → read input' = read' input') :
    Steady read input := by
  obtain ⟨taken, rest, outcome, rfl, hstop⟩ := h
  refine ⟨taken, rest, outcome, rfl, fun rest' hhead => ?_⟩
  rw [hread, hstop rest' hhead]
  rw [List.head?_append, List.head?_append, hhead]

/-- A reading after another one. -/
theorem bind {next : α × List Token → Except Stuck (β × List Token)} (h : Steady read input)
    (hnext : ∀ value rest, read input = .ok (value, rest) →
      Steady (fun rest => next (value, rest)) rest) :
    Steady (fun input => read input >>= next) input := by
  obtain ⟨taken, rest, outcome, rfl, hstop⟩ := h
  cases outcome with
  | error reason =>
      refine ⟨taken, rest, .error reason, rfl, fun rest' hhead => ?_⟩
      change read (taken ++ rest') >>= next = _
      rw [hstop rest' hhead]
      rfl
  | ok value =>
      obtain ⟨more, left, outcome, rfl, hmore⟩ := hnext value rest (hstop rest rfl)
      refine ⟨taken ++ more, left, outcome, (List.append_assoc ..).symm, fun rest' hhead => ?_⟩
      have hread : read (taken ++ (more ++ rest')) = .ok (value, more ++ rest') := by
        refine hstop _ ?_
        rw [List.head?_append, List.head?_append, hhead]
      change read (taken ++ more ++ rest') >>= next = _
      rw [List.append_assoc, hread]
      exact hmore rest' hhead

end Steady

end Steady

theorem eq_nil_of_head? {input : List Token} (h : input.head? = ([] : List Token).head?) :
    input = [] :=
  List.head?_eq_none_iff.1 h

theorem eq_cons_of_head? {tok : Token} {after input : List Token}
    (h : input.head? = (tok :: after).head?) : ∃ after', input = tok :: after' := by
  cases input with
  | nil => cases h
  | cons tok' after' =>
      cases h
      exact ⟨after', rfl⟩

theorem startsPrimary_of_head? {input input' : List Token} (h : input'.head? = input.head?) :
    startsPrimary input' = startsPrimary input := by
  cases input with
  | nil => rw [eq_nil_of_head? h]
  | cons tok after =>
      obtain ⟨after', rfl⟩ := eq_cons_of_head? h
      rfl

section Chains

variable {c : Chain} {operand : Reader (Tree c.operand)}

theorem tail_steady (hoperand : ∀ input, Steady operand.run input) (input : List Token) :
    Steady (tailRun c operand) input := by
  -- behind an operator and an operand the rest of the chain is read from fewer tokens
  induction hlength : input.length using Nat.strongRecOn generalizing input with
  | _ n ih =>
      cases input with
      | nil =>
          refine (steady_ok .done []).congr_head fun input' hhead => ?_
          rw [eq_nil_of_head? hhead, tailRun_nil]
      | cons tok after =>
          cases hop : c.op? tok.kind with
          | none =>
              refine (steady_ok .done (tok :: after)).congr_head fun input' hhead => ?_
              obtain ⟨after', rfl⟩ := eq_cons_of_head? hhead
              rw [tailRun_cons, hop]
          | some op =>
              refine Steady.cons (Steady.bind (hoperand after) fun value rest hvalue => ?_)
                fun after => by rw [tailRun_cons, hop]
              have hlt : rest.length < n := by
                have := length_lt_of_run hvalue
                rw [List.length_cons] at hlength
                omega
              change Steady (fun rest => do
                let others ← tailRun c operand rest
                .ok (Tail.step ⟨op, tok.position⟩ value others.1, others.2)) rest
              exact (ih rest.length hlt rest rfl).bind fun others left _ =>
                steady_ok (Tail.step ⟨op, tok.position⟩ value others) left

theorem chain_steady (hoperand : ∀ input, Steady operand.run input) (input : List Token) :
    Steady (chain c operand).run input := by
  refine Steady.congr_head ?_ fun input' _ => run_chain c operand input'
  refine Steady.bind (hoperand input) fun value rest _ => ?_
  change Steady (fun rest => do
    let others ← tailRun c operand rest
    .ok (Tree.chain value others.1, others.2)) rest
  exact (tail_steady hoperand rest).bind fun others left _ =>
    steady_ok (Tree.chain value others) left

end Chains

theorem signed_steady {power : Reader (Tree (.chain .power))}
    (hpower : ∀ input, Steady power.run input) (input : List Token) :
    Steady (signed power).run input := by
  cases input with
  | nil =>
      refine (steady_error .noOperand []).congr_head fun input' hhead => ?_
      rw [eq_nil_of_head? hhead, run_signed_nil]
  | cons tok after =>
      by_cases hminus : tok.kind = .minus
      · refine Steady.cons (Steady.bind (hpower after) fun value rest _ => ?_)
          fun after => by rw [run_signed_cons, if_pos hminus]
        exact steady_ok (Tree.signed true value) rest
      · have hplain : Steady (fun input => do
            let value ← power.run input
            .ok (Tree.signed false value.1, value.2)) (tok :: after) :=
          (hpower (tok :: after)).bind fun value rest _ => steady_ok (Tree.signed false value) rest
        refine hplain.congr_head fun input' hhead => ?_
        obtain ⟨after', rfl⟩ := eq_cons_of_head? hhead
        rw [run_signed_cons, if_neg hminus]

/-- Taking the parenthesis that closes a group. -/
theorem close_steady (value : Expr) (input : List Token) :
    Steady (fun input : List Token =>
      match input with
      | [] => .error ⟨.expected .rparen, []⟩
      | close :: left =>
          if close.kind = .rparen then .ok (Tree.group value, left)
          else .error ⟨.expected .rparen, close :: left⟩) input := by
  cases input with
  | nil =>
      refine (steady_error (.expected .rparen) []).congr_head fun input' hhead => ?_
      rw [eq_nil_of_head? hhead]
  | cons close left =>
      by_cases hclose : close.kind = .rparen
      · exact (steady_ok (Tree.group value) left).cons fun after => if_pos hclose
      · refine (steady_error (.expected .rparen) (close :: left)).congr_head fun input' hhead => ?_
        obtain ⟨left', rfl⟩ := eq_cons_of_head? hhead
        exact if_neg hclose

theorem primary_steady {inner : Option (Reader Expr)}
    (hinner : ∀ read ∈ inner, ∀ input, Steady (run read) input) (input : List Token) :
    Steady (primary inner).run input := by
  cases input with
  | nil =>
      refine (steady_error .noOperand []).congr_head fun input' hhead => ?_
      rw [eq_nil_of_head? hhead, run_primary_nil]
  | cons tok after =>
      by_cases hident : tok.kind = .ident
      · exact (steady_ok _ after).cons fun after => run_primary_ident inner hident after
      by_cases hnumber : tok.kind = .number
      · exact (steady_ok _ after).cons fun after => run_primary_number inner hnumber after
      by_cases hlparen : tok.kind = .lparen
      · cases inner with
        | none =>
            refine (steady_error .tooDeep (tok :: after)).congr_head fun input' hhead => ?_
            obtain ⟨after', rfl⟩ := eq_cons_of_head? hhead
            exact run_primary_tooDeep hlparen after'
        | some read =>
            refine Steady.cons ?_ (run_primary_group read hlparen)
            exact (hinner read rfl after).bind fun value rest _ => close_steady value rest
      · refine (steady_error .noOperand (tok :: after)).congr_head fun input' hhead => ?_
        obtain ⟨after', rfl⟩ := eq_cons_of_head? hhead
        exact run_primary_other inner hident hnumber hlparen after'

/-- The arguments of a name that is called. -/
theorem arguments_steady {inner : Option (Reader Expr)}
    (hprimary : ∀ input, Steady (primary inner).run input) (name : Placed String)
    (input : List Token) :
    Steady (fun input => do
      let first ← (primary inner).run input
      if startsPrimary first.2 then (do
        let second ← (primary inner).run first.2
        .ok (Tree.callTwo name first.1 second.1, second.2))
      else .ok (.callOne name first.1, first.2)) input := by
  refine (hprimary input).bind fun first rest _ => ?_
  cases hstarts : startsPrimary rest with
  | false =>
      refine (steady_ok (Tree.callOne name first) rest).congr_head fun rest' hhead => ?_
      rw [startsPrimary_of_head? hhead, hstarts, if_neg Bool.false_ne_true]
  | true =>
      have hsecond : Steady (fun rest => do
          let second ← (primary inner).run rest
          .ok (Tree.callTwo name first second.1, second.2)) rest :=
        (hprimary rest).bind fun second left _ => steady_ok (Tree.callTwo name first second) left
      refine hsecond.congr_head fun rest' hhead => ?_
      rw [startsPrimary_of_head? hhead, hstarts, if_pos rfl]

theorem call_steady {inner : Option (Reader Expr)}
    (hprimary : ∀ input, Steady (primary inner).run input) (input : List Token) :
    Steady (call inner).run input := by
  cases input with
  | nil =>
      refine (steady_error .noOperand []).congr_head fun input' hhead => ?_
      rw [eq_nil_of_head? hhead, run_call_nil]
  | cons tok after =>
      by_cases hident : tok.kind = .ident
      · -- the name is taken either way; the token after it says whether it is called
        obtain ⟨read, hread, hrun⟩ : ∃ read, Steady read after ∧
            ∀ after' : List Token, after'.head? = after.head? →
              (call inner).run (tok :: after') = read after' := by
          cases hstarts : startsPrimary after with
          | false =>
              refine ⟨_, steady_ok (Tree.plain (.variable tok.placed)) after, fun after' hhead => ?_⟩
              rw [run_call_cons, startsPrimary_of_head? hhead, hstarts, run_primary_ident inner hident]
              simp [bind, Except.bind]
          | true =>
              refine ⟨_, arguments_steady hprimary tok.placed after, fun after' hhead => ?_⟩
              rw [run_call_cons, startsPrimary_of_head? hhead, hstarts, if_pos ⟨hident, rfl⟩]
        obtain ⟨taken, rest, outcome, rfl, hstop⟩ := hread
        refine ⟨tok :: taken, rest, outcome, rfl, fun rest' hhead => ?_⟩
        rw [List.cons_append, hrun, hstop rest' hhead]
        rw [List.head?_append, List.head?_append, hhead]
      · have hplain : Steady (fun input => do
            let value ← (primary inner).run input
            .ok (Tree.plain value.1, value.2)) (tok :: after) :=
          (hprimary (tok :: after)).bind fun value rest _ => steady_ok (Tree.plain value) rest
        refine hplain.congr_head fun input' hhead => ?_
        obtain ⟨after', rfl⟩ := eq_cons_of_head? hhead
        rw [run_call_cons, if_neg fun h => hident h.1]

/-- The reader of sums with parentheses nested `depth` deep is steady. -/
theorem sum_steady (depth : Nat) (input : List Token) : Steady (sum (nested depth)).run input := by
  have hsum : ∀ inner : Option (Reader Expr),
      (∀ read ∈ inner, ∀ input, Steady (run read) input) →
        ∀ input, Steady (sum inner).run input := fun inner hinner =>
    chain_steady (chain_steady (signed_steady (chain_steady (call_steady (primary_steady hinner)))))
  -- every rule hands the readers of inner expressions on; only groups use them
  induction depth generalizing input with
  | zero =>
      refine hsum none ?_ input
      intro read hread
      cases hread
  | succ depth ih =>
      refine hsum (some (sum (nested depth))) ?_ input
      intro read hread
      cases hread
      exact ih

theorem expr_steady (input : List Token) : Steady expr.run input := sum_steady maxNesting input

end Reader

end FlightCurve

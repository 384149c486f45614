import FlightCurve.Proofs.Reading
import FlightCurve.Proofs.Writing

/-!
Resuming where readers are stuck. A reader is stuck only where something is missing: the tokens
taken so far, and some that can be written after them, are what its rule derives.

Operands hand this on to chains, and inner expressions to groups. The main fact is that the reader
of expressions can be resumed wherever it is stuck.
-/

namespace FlightCurve

/-! Leaves that are begun -/

/-- The tokens of the input before `rest` fit the first of the leaves, and tokens that can be
written fit the other ones. -/
def Begun (leaves : List Leaf) (input rest : List Token) : Prop :=
  ∃ taken more, input = taken ++ rest ∧ Fit leaves (taken ++ more) ∧ ∀ tok ∈ more, tok.IsWritten

namespace Begun

variable {leaves leaves' : List Leaf} {input rest us : List Token}

/-- None of the leaves has a token yet. -/
theorem of_written (hfit : Fit leaves us) (hus : ∀ tok ∈ us, tok.IsWritten) (rest : List Token) :
    Begun leaves rest rest :=
  ⟨[], us, rfl, hfit, hus⟩

/-- Other leaves stand before, and have their tokens. -/
theorem after (h : Begun leaves input rest) (hfit : Fit leaves' us) :
    Begun (leaves' ++ leaves) (us ++ input) rest := by
  obtain ⟨taken, more, rfl, hleaves, hmore⟩ := h
  refine ⟨us ++ taken, more, (List.append_assoc ..).symm, ?_, hmore⟩
  rw [List.append_assoc]
  exact List.rel_append hfit hleaves

theorem cons (h : Begun leaves input rest) {leaf : Leaf} {tok : Token} (hleaf : leaf.Fits tok) :
    Begun (leaf :: leaves) (tok :: input) rest :=
  h.after (.cons hleaf .nil)

/-- Other leaves stand behind, and have no token yet. -/
theorem before (h : Begun leaves input rest) (hfit : Fit leaves' us)
    (hus : ∀ tok ∈ us, tok.IsWritten) : Begun (leaves ++ leaves') input rest := by
  obtain ⟨taken, more, hinput, hleaves, hmore⟩ := h
  refine ⟨taken, more ++ us, hinput, ?_, List.forall_mem_append.2 ⟨hmore, hus⟩⟩
  rw [← List.append_assoc]
  exact List.rel_append hleaves hfit

end Begun

namespace Reader

/-- A number, which completes whatever lacks an operand. -/
def zero : Token := ⟨.number, "0", .start⟩

/-- A closing parenthesis. -/
def closing : Token := ⟨.rparen, ")", .start⟩

theorem isWritten_zero : zero.IsWritten := by decide

theorem isWritten_closing : closing.IsWritten := by decide

def zeroPower : Tree (.chain .power) := .chain (.plain (.number zero.placed)) .done

def zeroProduct : Tree (.chain .product) := .chain (.signed false zeroPower) .done

/-- The number alone is derived by every rule. -/
theorem exists_tree_zero (r : Rule) :
    ∃ tree : Tree r, Fit tree.flatten [zero] ∧ tree.nesting = 0 := by
  have hfit : Fit [.placed .number zero.placed] [zero] := .cons (Leaf.fits_placed rfl) .nil
  match r with
  | .primary => exact ⟨.number zero.placed, hfit, rfl⟩
  | .call => exact ⟨.plain (.number zero.placed), hfit, rfl⟩
  | .signed => exact ⟨.signed false zeroPower, hfit, rfl⟩
  | .chain .power => exact ⟨zeroPower, hfit, rfl⟩
  | .chain .product => exact ⟨zeroProduct, hfit, rfl⟩
  | .chain .sum => exact ⟨.chain zeroProduct .done, hfit, rfl⟩

/-- Where the reader is stuck, what it has taken begins a tree of its rule. -/
def Resumes {r : Rule} (depth : Nat) (read : Reader (Tree r)) : Prop :=
  ∀ ⦃input rest : List Token⦄ ⦃reason : Reason⦄, (∀ tok ∈ input, tok.Spelled) →
    read.run input = .error ⟨reason, rest⟩ →
    ∃ tree : Tree r, Begun tree.flatten input rest ∧ tree.nesting ≤ depth

/-- A reader that is stuck at once can be resumed with a number. -/
theorem resumes_at_once {r : Rule} {depth : Nat} (rest : List Token) :
    ∃ tree : Tree r, Begun tree.flatten rest rest ∧ tree.nesting ≤ depth := by
  obtain ⟨tree, hfit, hnesting⟩ := exists_tree_zero r
  refine ⟨tree, .of_written hfit ?_ rest, hnesting ▸ Nat.zero_le depth⟩
  exact List.forall_mem_singleton.2 isWritten_zero

section Chains

variable {c : Chain} {depth : Nat} {operand : Reader (Tree c.operand)}

theorem tail_resumes (hsound : operand.Sound depth) (hoperand : operand.Resumes depth)
    {input rest : List Token} {reason : Reason} (hspelled : ∀ tok ∈ input, tok.Spelled)
    (hread : tailRun c operand input = .error ⟨reason, rest⟩) :
    ∃ tail : Tail c, Begun tail.flatten input rest ∧ tail.nesting ≤ depth := by
  -- either the operand behind the next operator is incomplete, or the rest of the chain is
  induction hlength : input.length using Nat.strongRecOn generalizing input with
  | _ n ih =>
      cases input with
      | nil =>
          rw [tailRun_nil] at hread
          cases hread
      | cons tok after =>
          rw [tailRun_cons] at hread
          rw [List.forall_mem_cons] at hspelled
          split at hread
          · cases hread
          · rename_i op hop
            have htok := Leaf.fits_operator hspelled.1 hop
            rcases Outcome.bind_eq_error_iff.1 hread with hfirst | ⟨⟨first, left⟩, hfirst, hothers⟩
            · obtain ⟨tree, hbegun, hnesting⟩ := hoperand hspelled.2 hfirst
              refine ⟨.step ⟨op, tok.position⟩ tree .done, ?_,
                Nat.max_le.2 ⟨hnesting, Nat.zero_le depth⟩⟩
              rw [Tail.flatten, Tail.flatten, List.append_nil]
              exact hbegun.cons htok
            · have hlt : left.length < n := by
                have := length_lt_of_run hfirst
                rw [List.length_cons] at hlength
                omega
              obtain ⟨us, rfl, hfit, hnesting⟩ := hsound hspelled.2 hfirst
              rcases Outcome.bind_eq_error_iff.1 hothers with hothers | ⟨_, _, hothers⟩
              · obtain ⟨tail, hbegun, hothers⟩ :=
                  ih left.length hlt (spelled_rest hspelled.2 rfl) hothers rfl
                exact ⟨.step ⟨op, tok.position⟩ first tail, (hbegun.after hfit).cons htok,
                  Nat.max_le.2 ⟨hnesting, hothers⟩⟩
              · cases hothers

theorem chain_resumes (hsound : operand.Sound depth) (hoperand : operand.Resumes depth) :
    (chain c operand).Resumes depth := by
  intro input rest reason hspelled hread
  rw [run_chain] at hread
  rcases Outcome.bind_eq_error_iff.1 hread with hfirst | ⟨⟨first, left⟩, hfirst, hothers⟩
  · obtain ⟨tree, hbegun, hnesting⟩ := hoperand hspelled hfirst
    refine ⟨.chain tree .done, ?_, Nat.max_le.2 ⟨hnesting, Nat.zero_le depth⟩⟩
    rwa [Tree.flatten, Tail.flatten, List.append_nil]
  · obtain ⟨us, rfl, hfit, hnesting⟩ := hsound hspelled hfirst
    rcases Outcome.bind_eq_error_iff.1 hothers with hothers | ⟨_, _, hothers⟩
    · obtain ⟨tail, hbegun, hothers⟩ :=
        tail_resumes hsound hoperand (spelled_rest hspelled rfl) hothers
      exact ⟨.chain first tail, hbegun.after hfit, Nat.max_le.2 ⟨hnesting, hothers⟩⟩
    · cases hothers

end Chains

section Expressions

variable {depth : Nat}

theorem signed_resumes {power : Reader (Tree (.chain .power))} (hpower : power.Resumes depth) :
    (signed power).Resumes depth := by
  intro input rest reason hspelled hread
  cases input with
  | nil =>
      rw [run_signed_nil] at hread
      cases hread
      exact resumes_at_once []
  | cons tok after =>
      rw [run_signed_cons] at hread
      split at hread
      · rename_i hminus
        rw [List.forall_mem_cons] at hspelled
        rcases Outcome.bind_eq_error_iff.1 hread with hoperand | ⟨_, _, hread⟩
        · obtain ⟨tree, hbegun, hnesting⟩ := hpower hspelled.2 hoperand
          exact ⟨.signed true tree, hbegun.cons (Leaf.fits_sign hspelled.1 hminus), hnesting⟩
        · cases hread
      · rcases Outcome.bind_eq_error_iff.1 hread with hoperand | ⟨_, _, hread⟩
        · obtain ⟨tree, hbegun, hnesting⟩ := hpower hspelled hoperand
          exact ⟨.signed false tree, hbegun, hnesting⟩
        · cases hread

/-- The readers for expressions in parentheses are sound and can be resumed one level below
`depth`. -/
theorem primary_resumes (hsound : ∀ d, depth = d + 1 → (sum (nested d)).Sound d)
    (hinner : ∀ d, depth = d + 1 → (sum (nested d)).Resumes d) :
    (primary (nested depth)).Resumes depth := by
  intro input rest reason hspelled hread
  cases input with
  | nil =>
      rw [run_primary_nil] at hread
      cases hread
      exact resumes_at_once []
  | cons tok after =>
      by_cases hident : tok.kind = .ident
      · rw [run_primary_ident _ hident] at hread
        cases hread
      by_cases hnumber : tok.kind = .number
      · rw [run_primary_number _ hnumber] at hread
        cases hread
      by_cases hlparen : tok.kind = .lparen
      · cases depth with
        | zero =>
            rw [nested, run_primary_tooDeep hlparen] at hread
            cases hread
            exact resumes_at_once _
        | succ d =>
            rw [nested, run_primary_group _ hlparen] at hread
            rw [List.forall_mem_cons] at hspelled
            have hleft := Leaf.fits_left hspelled.1 hlparen
            have hright : Fit [.right] [closing] :=
              .cons (Leaf.fits_right isWritten_closing.spelled rfl) .nil
            have hwritten : ∀ tok ∈ [closing], tok.IsWritten :=
              List.forall_mem_singleton.2 isWritten_closing
            rcases Outcome.bind_eq_error_iff.1 hread with hinside | ⟨⟨value, left⟩, hinside, hclose⟩
            · obtain ⟨tree, hbegun, hnesting⟩ := hinner d rfl hspelled.2 hinside
              exact ⟨.group tree, (hbegun.before hright hwritten).cons hleft,
                Nat.succ_le_succ hnesting⟩
            · obtain ⟨us, rfl, hfit, hnesting⟩ := hsound d rfl hspelled.2 hinside
              -- the expression is complete, and only its parenthesis is missing
              obtain rfl : rest = left := by
                simp only at hclose
                split at hclose
                · cases hclose
                  rfl
                · split at hclose
                  · cases hclose
                  · cases hclose
                    rfl
              exact ⟨.group value, ((Begun.of_written hright hwritten _).after hfit).cons hleft,
                Nat.succ_le_succ hnesting⟩
      · rw [run_primary_other _ hident hnumber hlparen] at hread
        cases hread
        exact resumes_at_once _

theorem call_resumes {inner : Option (Reader Expr)} (hsound : (primary inner).Sound depth)
    (hprimary : (primary inner).Resumes depth) : (call inner).Resumes depth := by
  intro input rest reason hspelled hread
  cases input with
  | nil =>
      rw [run_call_nil] at hread
      cases hread
      exact resumes_at_once []
  | cons tok after =>
      rw [run_call_cons] at hread
      split at hread
      · rename_i hcall
        rw [List.forall_mem_cons] at hspelled
        have hname := Leaf.fits_placed hcall.1
        rcases Outcome.bind_eq_error_iff.1 hread with hfirst | ⟨⟨first, left⟩, hfirst, hothers⟩
        · obtain ⟨tree, hbegun, hnesting⟩ := hprimary hspelled.2 hfirst
          exact ⟨.callOne tok.placed tree, hbegun.cons hname, hnesting⟩
        · obtain ⟨us, rfl, hfit, hnesting⟩ := hsound hspelled.2 hfirst
          simp only at hothers
          split at hothers
          · rcases Outcome.bind_eq_error_iff.1 hothers with hsecond | ⟨_, _, hsecond⟩
            · obtain ⟨tree, hbegun, hsecond⟩ :=
                hprimary (spelled_rest hspelled.2 rfl) hsecond
              exact ⟨.callTwo tok.placed first tree, (hbegun.after hfit).cons hname,
                Nat.max_le.2 ⟨hnesting, hsecond⟩⟩
            · cases hsecond
          · cases hothers
      · rcases Outcome.bind_eq_error_iff.1 hread with hvalue | ⟨_, _, hread⟩
        · obtain ⟨tree, hbegun, hnesting⟩ := hprimary hspelled hvalue
          exact ⟨.plain tree, hbegun, hnesting⟩
        · cases hread

end Expressions

/-- The reader of sums with parentheses nested `depth` deep can be resumed. -/
theorem sum_resumes (depth : Nat) : (sum (nested depth)).Resumes depth := by
  have hsum : ∀ depth : Nat, (∀ d, depth = d + 1 → (sum (nested d)).Resumes d) →
      (sum (nested depth)).Resumes depth := by
    intro depth hinner
    have hprimary : (primary (nested depth)).Sound depth := primary_sound fun d _ => sum_sound d
    have hsigned : (signed (chain .power (call (nested depth)))).Sound depth :=
      signed_sound (chain_sound (call_sound hprimary))
    have hresumes : (primary (nested depth)).Resumes depth :=
      primary_resumes (fun d _ => sum_sound d) hinner
    exact chain_resumes (chain_sound hsigned) (chain_resumes hsigned
      (signed_resumes (chain_resumes (call_sound hprimary) (call_resumes hprimary hresumes))))
  induction depth with
  | zero =>
      refine hsum 0 ?_
      intro d hd
      cases hd
  | succ depth ih =>
      refine hsum (depth + 1) ?_
      intro d hd
      cases hd
      exact ih

theorem expr_resumes : expr.Resumes maxNesting := sum_resumes maxNesting

end Reader

end FlightCurve

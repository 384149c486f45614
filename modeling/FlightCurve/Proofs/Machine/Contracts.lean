import Mathlib.Data.Prod.Lex
import FlightCurve.Proofs.Cursor.Sources
import FlightCurve.Proofs.Machine

/-!
What the procedures of a machine promise. A call begins where there is a token, in at most
`maxNesting` parentheses; it keeps to that, never moves back, and returns in as many parentheses as
it was called in. Expressions and assignments take a token before they return, and loops take one
before they go round again. What is returned is what reading by index gives.

`Meets` has one rule for each form of program. The main fact is that a machine whose bodies all meet
their contracts never looks up a token that is not there and comes to an end: a procedure is only
called further on in the tokens or, where nothing has been taken yet, on a lower level.
-/

namespace FlightCurve

namespace Machine

variable {m : Machine} {root p q : Procedure} {st st₁ st₂ : State}

/-! States -/

structure InBounds (m : Machine) (st : State) : Prop where
  index_lt : st.index < m.tokens.length
  depth_nonneg : 0 ≤ st.depth
  depth_le : st.depth ≤ maxNesting

/-- A token was taken in between. -/
structure Took (st st' : State) : Prop where
  index_lt : st.index < st'.index
  taken_lt : st.taken < st'.taken

/-- Where a call may come to. -/
structure Onward (m : Machine) (st st' : State) : Prop where
  bounds : m.InBounds st'
  index_le : st.index ≤ st'.index
  taken_le : st.taken ≤ st'.taken
  depth_eq : st'.depth = st.depth

theorem Onward.refl (h : m.InBounds st) : m.Onward st st :=
  ⟨h, Nat.le_refl _, Nat.le_refl _, rfl⟩

theorem Onward.trans (h : m.Onward st st₁) (h' : m.Onward st₁ st₂) : m.Onward st st₂ :=
  ⟨h'.bounds, Nat.le_trans h.index_le h'.index_le, Nat.le_trans h.taken_le h'.taken_le,
    h'.depth_eq.trans h.depth_eq⟩

theorem Took.onward (h : Took st st₁) (h' : m.Onward st₁ st₂) : Took st st₂ :=
  ⟨Nat.lt_of_lt_of_le h.index_lt h'.index_le, Nat.lt_of_lt_of_le h.taken_lt h'.taken_le⟩

theorem Onward.took (h : m.Onward st st₁) (h' : Took st₁ st₂) : Took st st₂ :=
  ⟨Nat.lt_of_le_of_lt h.index_le h'.index_lt, Nat.lt_of_le_of_lt h.taken_le h'.taken_lt⟩

/-! What is to be shown of a run -/

/-- Whether a call that returns this has taken a token. -/
def Procedure.Takes : (p : Procedure) → p.Result → Prop
  | .advance, tok => tok.kind ≠ .eof
  | .expect kind, _ => kind ≠ .eof
  | .accept kinds, tok? => .eof ∉ kinds ∧ tok?.isSome
  | .rule _, _ => True
  | .expr, _ => True
  | .assignment, _ => True
  | .assignments, as => as ≠ []
  | _, _ => False

/-- The loops of which each round takes a token. -/
def Procedure.IsLoop : Procedure → Prop
  | .tail _ => True
  | .separators => True
  | .assignments => True
  | _ => False

/-- Nothing is wrong with a configuration, nor with the step that comes next. -/
structure Sound (m : Machine) (c : Config root) : Prop where
  /-- The index is that of a token, and no more parentheses are open than may be; -/
  bounds : m.InBounds c.state
  /-- a token that is looked up is there, -/
  look : ∀ i next, c.program = .look i next → i < m.tokens.length
  /-- and the next step does not move back. -/
  onward : ∀ c', m.step c = some c' → c.state.index ≤ c'.state.index
  /-- A call that returns leaves as many parentheses open as it found -/
  depth : ∀ value, c.program = .ret value → c.state.depth = c.entry.depth
  /-- and has taken a token if it has to. -/
  takes : ∀ value, c.program = .ret value → c.running.Takes value → Took c.entry c.state
  /-- A loop that goes round again has taken a token in this round. -/
  again : ∀ next, c.program = .call c.running next → c.running.IsLoop → Took c.entry c.state

/-! The order of calls -/

/-- The index at which a procedure begins. -/
def Procedure.position : Procedure → State → Nat
  | .ahead index _, _ => index
  | _, st => st.index

/-- How high a procedure stands above those that it calls before it has taken anything. -/
def Procedure.level : Procedure → Nat
  | .ahead _ _ => 0
  | .skip => 1
  | .current => 2
  | .peek _ => 2
  | .advance => 3
  | .atHeader => 3
  | .expect _ => 4
  | .accept _ => 4
  | .advances count => 4 + count
  | .tail _ => 5
  | .separators => 5
  | .rule .primary => 5
  | .rule .call => 6
  | .rule (.chain .power) => 7
  | .rule .signed => 8
  | .rule (.chain .product) => 9
  | .rule (.chain .sum) => 10
  | .expr => 11
  | .assignment => 12
  | .curveExpr _ => 12
  | .assignments => 13
  | .clause => 14

/-- How much is left to a call: tokens, and levels below it. -/
def size (m : Machine) (call : Procedure × State) : ℕ ×ₗ ℕ :=
  toLex (m.tokens.length - call.1.position call.2, call.1.level)

theorem size_lt_of_position (h : p.position st < q.position st₁)
    (hlt : p.position st < m.tokens.length) : m.size (q, st₁) < m.size (p, st) := by
  rw [size, size, Prod.Lex.toLex_lt_toLex]
  exact .inl (Nat.sub_lt_sub_left hlt h)

theorem size_lt_of_level (h : p.position st ≤ q.position st₁) (hlevel : q.level < p.level) :
    m.size (q, st₁) < m.size (p, st) := by
  have hle : m.tokens.length - q.position st₁ ≤ m.tokens.length - p.position st :=
    Nat.sub_le_sub_left h _
  rw [size, size, Prod.Lex.toLex_lt_toLex]
  rcases Nat.lt_or_eq_of_le hle with hlt | heq
  · exact .inl hlt
  · exact .inr ⟨heq, hlevel⟩

structure Callable (m : Machine) (p : Procedure) (st : State) : Prop where
  bounds : m.InBounds st
  position_lt : p.position st < m.tokens.length

theorem position_of_level (h : 0 < p.level) (st : State) : p.position st = st.index := by
  cases p with
  | ahead index offset => exact absurd h (Nat.lt_irrefl 0)
  | _ => rfl

/-! Contracts -/

/-- The place of a state for reading by index. -/
def State.cursor (st : State) : Cursor := ⟨st.index, st.depth.toNat⟩

/-- How an expression in parentheses is read that are opened in a depth. -/
def inside (m : Machine) (depth : Int) : Option (Cursor.Read Expr) :=
  Cursor.nested m.tokens m.separating (maxNesting - depth.toNat)

/-- How a rule is read by index in a depth. -/
def reads (m : Machine) (depth : Int) : (r : Rule) → Cursor.Read (Tree r) :=
  let call := Cursor.call m.tokens m.separating (m.inside depth)
  let power := Cursor.chain m.tokens m.separating .power call
  let signed := Cursor.signed m.tokens m.separating power
  fun
  | .primary => Cursor.primary m.tokens m.separating (m.inside depth)
  | .call => call
  | .signed => signed
  | .chain .power => power
  | .chain .product => Cursor.chain m.tokens m.separating .product signed
  | .chain .sum => Cursor.sum m.tokens m.separating (m.inside depth)

/-- What a call returns, and where it is then, as reading by index has it. -/
def Returned (m : Machine) : (p : Procedure) → State → p.Result → State → Prop
  | .skip, st, _, st' => ∃ tok,
      Cursor.current m.tokens m.separating st.cursor = .ok (tok, st'.cursor)
  | .current, st, tok, st' =>
      Cursor.current m.tokens m.separating st.cursor = .ok (tok, st'.cursor)
  | .ahead index offset, st, tok, st' => Cursor.ahead m.tokens index offset = .ok tok ∧ st' = st
  | .peek offset, st, tok, st' =>
      Cursor.peek m.tokens m.separating offset st.cursor = .ok (tok, st'.cursor)
  | .advance, st, tok, st' =>
      Cursor.advance m.tokens m.separating st.cursor = .ok (tok, st'.cursor)
  | .expect kind, st, tok, st' =>
      Cursor.expect m.tokens m.separating kind st.cursor = .ok (tok, st'.cursor)
  | .accept kinds, st, none, st' => ∃ tok, tok.kind ∉ kinds ∧
      Cursor.current m.tokens m.separating st.cursor = .ok (tok, st'.cursor)
  | .accept kinds, st, some tok, st' => tok.kind ∈ kinds ∧ ∃ here,
      Cursor.current m.tokens m.separating st.cursor = .ok (tok, here) ∧
      Cursor.advance m.tokens m.separating here = .ok (tok, st'.cursor)
  | .tail c, st, rest, st' =>
      Cursor.tail m.tokens m.separating c (m.reads st.depth c.operand) st.cursor =
        .ok (rest, st'.cursor)
  | .rule r, st, tree, st' => m.reads st.depth r st.cursor = .ok (tree, st'.cursor)
  | .expr, st, tree, st' => m.reads st.depth (.chain .sum) st.cursor = .ok (tree, st'.cursor)
  | .separators, st, _, st' =>
      m.separating = true → Cursor.separators m.tokens st.cursor = .ok st'.cursor
  | .assignment, st, a, st' => m.separating = true → st.depth = 0 →
      Cursor.assignment m.tokens st.cursor = .ok (a, st'.cursor)
  | .assignments, st, as, _ => m.separating = true → st.depth = 0 →
      Cursor.assignments m.tokens st.cursor = .ok as
  | .clause, st, as, _ => m.separating = true → st.cursor = ⟨0, 0⟩ →
      Cursor.clause m.tokens = .ok as
  | .atHeader, st, isHeader, st' => m.separating = false →
      Cursor.atHeader m.tokens st.cursor = .ok (isHeader, st'.cursor)
  | .advances count, st, _, st' => m.separating = false →
      Cursor.advanceBy m.tokens count st.cursor = .ok st'.cursor
  | .curveExpr axis, st, tree, _ => m.separating = false → st.cursor = ⟨0, 0⟩ →
      Cursor.curveExpr m.tokens axis = .ok tree

/-- Where a call gets stuck, and why, as reading by index has it. The other procedures never do. -/
def Refused (m : Machine) : Procedure → State → Reason → Token → Prop
  | .expect kind, st, reason, tok =>
      Cursor.expect m.tokens m.separating kind st.cursor = .error (.stuck reason tok)
  | .tail c, st, reason, tok =>
      Cursor.tail m.tokens m.separating c (m.reads st.depth c.operand) st.cursor =
        .error (.stuck reason tok)
  | .rule r, st, reason, tok => m.reads st.depth r st.cursor = .error (.stuck reason tok)
  | .expr, st, reason, tok =>
      m.reads st.depth (.chain .sum) st.cursor = .error (.stuck reason tok)
  | .assignment, st, reason, tok => m.separating = true → st.depth = 0 →
      Cursor.assignment m.tokens st.cursor = .error (.stuck reason tok)
  | .assignments, st, reason, tok => m.separating = true → st.depth = 0 →
      Cursor.assignments m.tokens st.cursor = .error (.stuck reason tok)
  | .clause, st, reason, tok => m.separating = true → st.cursor = ⟨0, 0⟩ →
      Cursor.clause m.tokens = .error (.stuck reason tok)
  | .curveExpr axis, st, reason, tok => m.separating = false → st.cursor = ⟨0, 0⟩ →
      Cursor.curveExpr m.tokens axis = .error (.stuck reason tok)
  | _, _, _, _ => False

/-- What a call that returns has done. -/
structure Contract (m : Machine) (p : Procedure) (st : State) (value : p.Result) (st' : State) :
    Prop where
  onward : m.Onward st st'
  takes : p.Takes value → Took st st'
  returned : m.Returned p st value st'

namespace Contract

variable {offset : Nat} {kind : Kind} {tok : Token}

theorem current_eq (h : m.Contract .current st tok st₁) :
    Cursor.current m.tokens m.separating st.cursor = .ok (tok, st₁.cursor) :=
  h.returned

theorem peek_eq (h : m.Contract (.peek offset) st tok st₁) :
    Cursor.peek m.tokens m.separating offset st.cursor = .ok (tok, st₁.cursor) :=
  h.returned

theorem advance_eq (h : m.Contract .advance st tok st₁) :
    Cursor.advance m.tokens m.separating st.cursor = .ok (tok, st₁.cursor) :=
  h.returned

theorem expect_eq (h : m.Contract (.expect kind) st tok st₁) :
    Cursor.expect m.tokens m.separating kind st.cursor = .ok (tok, st₁.cursor) :=
  h.returned

end Contract

theorem expect_of_refused {kind : Kind} {reason : Reason} {tok : Token}
    (h : m.Refused (.expect kind) st reason tok) :
    Cursor.expect m.tokens m.separating kind st.cursor = .error (.stuck reason tok) :=
  h

/-! Programs that meet a contract -/

/-- What is left to do in a call of `p` that was made at `entry` keeps to the contract. -/
inductive Meets (m : Machine) (p : Procedure) (entry : State) : Program p.Result → State → Prop
  | ret {value : p.Result} {st : State} (contract : m.Contract p entry value st) :
      Meets m p entry (.ret value) st
  | stuck {reason : Reason} {tok : Token} {st : State} (refused : m.Refused p entry reason tok) :
      Meets m p entry (.stuck reason tok) st
  | look {i : Nat} {tok : Token} {next : Token → Program p.Result} {st : State}
      (found : m.tokens[i]? = some tok) (more : Meets m p entry (next tok) st) :
      Meets m p entry (.look i next) st
  | get {next : State → Program p.Result} {st : State} (more : Meets m p entry (next st) st) :
      Meets m p entry (.get next) st
  | put {st' : State} {next : Program p.Result} {st : State} (bounds : m.InBounds st')
      (index_le : st.index ≤ st'.index) (more : Meets m p entry next st') :
      Meets m p entry (.put st' next) st
  | call {q : Procedure} {next : q.Result → Program p.Result} {st : State}
      (callable : m.Callable q st) (smaller : m.size (q, st) < m.size (p, entry))
      (again : q = p → p.IsLoop → Took entry st)
      (refused : ∀ reason tok, m.Refused q st reason tok → m.Refused p entry reason tok)
      (returned : ∀ value st', m.Contract q st value st' → Meets m p entry (next value) st') :
      Meets m p entry (.call q next) st

namespace Meets

variable {next : q.Result → Program p.Result}

/-- A procedure on a lower level may be called before anything is taken. -/
theorem lower (hst : m.Onward st st₁) (hlevel : 0 < q.level ∧ q.level < p.level)
    (refused : ∀ reason tok, m.Refused q st₁ reason tok → m.Refused p st reason tok)
    (returned : ∀ value st', m.Contract q st₁ value st' → m.Meets p st (next value) st') :
    m.Meets p st (.call q next) st₁ := by
  have hq := position_of_level hlevel.1 st₁
  have hp := position_of_level (Nat.lt_trans hlevel.1 hlevel.2) st
  refine .call ⟨hst.bounds, hq ▸ hst.bounds.index_lt⟩ ?_ ?_ refused returned
  · exact size_lt_of_level (by rw [hq, hp]; exact hst.index_le) hlevel.2
  · rintro rfl
    exact absurd hlevel.2 (Nat.lt_irrefl _)

/-- Every procedure may be called once a token is taken. -/
theorem beyond (hst : m.InBounds st₁) (htook : Took st st₁) (hq : 0 < q.level) (hp : 0 < p.level)
    (refused : ∀ reason tok, m.Refused q st₁ reason tok → m.Refused p st reason tok)
    (returned : ∀ value st', m.Contract q st₁ value st' → m.Meets p st (next value) st') :
    m.Meets p st (.call q next) st₁ := by
  have hq := position_of_level hq st₁
  have hp := position_of_level hp st
  have hindex : p.position st < q.position st₁ := by
    rw [hq, hp]
    exact htook.index_lt
  have hsize := size_lt_of_position hindex (Nat.lt_trans (hq ▸ hindex) hst.index_lt)
  exact .call ⟨hst, hq ▸ hst.index_lt⟩ hsize (fun _ _ => htook) refused returned

/-! The procedures that only look at tokens or move over one are never stuck. -/

theorem current {next : Token → Program p.Result} (hst : m.Onward st st₁) (hlevel : 2 < p.level)
    (more : ∀ tok st₂, m.Contract .current st₁ tok st₂ → m.Meets p st (next tok) st₂) :
    m.Meets p st (.call .current next) st₁ :=
  .lower hst ⟨Nat.succ_pos 1, hlevel⟩ (fun _ _ => False.elim) more

theorem peek {offset : Nat} {next : Token → Program p.Result} (hst : m.Onward st st₁)
    (hlevel : 2 < p.level)
    (more : ∀ tok st₂, m.Contract (.peek offset) st₁ tok st₂ → m.Meets p st (next tok) st₂) :
    m.Meets p st (.call (.peek offset) next) st₁ :=
  .lower hst ⟨Nat.succ_pos 1, hlevel⟩ (fun _ _ => False.elim) more

theorem advance {next : Token → Program p.Result} (hst : m.Onward st st₁) (hlevel : 3 < p.level)
    (more : ∀ tok st₂, m.Contract .advance st₁ tok st₂ → m.Meets p st (next tok) st₂) :
    m.Meets p st (.call .advance next) st₁ :=
  .lower hst ⟨Nat.succ_pos 2, hlevel⟩ (fun _ _ => False.elim) more

end Meets

/-! Runs -/

/-- Steps lead from a configuration to one where `Finally` holds, and `Along` holds until then. -/
inductive Leads (m : Machine) (Along Finally : Config root → Prop) : Config root → Prop
  | here {c : Config root} (along : Along c) (last : Finally c) : Leads m Along Finally c
  | step {c c' : Config root} (along : Along c) (next : m.step c = some c')
      (more : Leads m Along Finally c') : Leads m Along Finally c

namespace Leads

variable {Along Finally Finally' : Config root → Prop} {c c' : Config root}

theorem trans (h : m.Leads Along Finally c)
    (hnext : ∀ c, Along c → Finally c → m.Leads Along Finally' c) : m.Leads Along Finally' c := by
  induction h with
  | here along last => exact hnext _ along last
  | step along next _ ih => exact .step along next ih

/-- There is only one way to go, so whatever is reached lies on it. -/
theorem along_of_reaches (h : m.Leads Along Finally c) (hlast : ∀ c, Finally c → m.step c = none)
    (hreach : m.Reaches c c') : Along c' := by
  induction h with
  | here along last =>
      rcases hreach.cases_head with rfl | ⟨c, hstep, _⟩
      · exact along
      · rw [hlast _ last] at hstep
        cases hstep
  | step along next _ ih =>
      rcases hreach.cases_head with rfl | ⟨c, hstep, hreach⟩
      · exact along
      · rw [next] at hstep
        cases hstep
        exact ih hreach

theorem exists_reaches (h : m.Leads Along Finally c) : ∃ c', m.Reaches c c' ∧ Finally c' := by
  induction h with
  | here along last => exact ⟨_, .refl, last⟩
  | step along next _ ih =>
      obtain ⟨c', hreach, hlast⟩ := ih
      exact ⟨c', .head next hreach, hlast⟩

end Leads

/-- A call has come to its end: it returns, or something in it is stuck. -/
inductive Finished (m : Machine) (p : Procedure) (st : State) (calls : Calls root p) :
    Config root → Prop
  | returned {value : p.Result} {st' : State} (contract : m.Contract p st value st') :
      Finished m p st calls ⟨p, st, st', .ret value, calls⟩
  | refused {q : Procedure} {entry st' : State} {reason : Reason} {tok : Token}
      {calls' : Calls root q} (refused : m.Refused p st reason tok) :
      Finished m p st calls ⟨q, entry, st', .stuck reason tok, calls'⟩

theorem Meets.sound {program : Program p.Result} (h : m.Meets p st program st₁)
    (hst : m.InBounds st₁) (calls : Calls root p) :
    m.Sound ⟨p, st, st₁, program, calls⟩ := by
  cases h with
  | ret contract =>
      refine ⟨hst, nofun, ?_, ?_, ?_, nofun⟩
      · intro c' hstep
        cases calls with
        | none => cases hstep
        | made caller entry next before =>
            cases hstep
            exact Nat.le_refl _
      · exact fun _ _ => contract.onward.depth_eq
      · intro value hvalue
        cases hvalue
        exact contract.takes
  | stuck refused => exact ⟨hst, nofun, nofun, nofun, nofun, nofun⟩
  | look found more =>
      refine ⟨hst, ?_, ?_, nofun, nofun, nofun⟩
      · intro i' next' hlook
        cases hlook
        exact (List.getElem?_eq_some_iff.1 found).1
      · intro c' hstep
        rw [step_look found] at hstep
        cases hstep
        exact Nat.le_refl _
  | get more =>
      refine ⟨hst, nofun, ?_, nofun, nofun, nofun⟩
      intro c' hstep
      cases hstep
      exact Nat.le_refl _
  | put bounds index_le more =>
      refine ⟨hst, nofun, ?_, nofun, nofun, nofun⟩
      intro c' hstep
      cases hstep
      exact index_le
  | call callable smaller again refused returned =>
      refine ⟨hst, nofun, ?_, nofun, nofun, ?_⟩
      · intro c' hstep
        cases hstep
        exact Nat.le_refl _
      · intro next hcall
        exact again (Program.call.inj hcall).1

/-- What is left to do in a call leads to its end, if the calls that it makes do so. -/
theorem Meets.leads {program : Program p.Result} (h : m.Meets p st program st₁)
    (hst : m.InBounds st₁)
    (hcalls : ∀ q st' (calls : Calls root q), m.size (q, st') < m.size (p, st) → m.Callable q st' →
      m.Leads m.Sound (m.Finished q st' calls) (m.enter q st' calls))
    (calls : Calls root p) :
    m.Leads m.Sound (m.Finished p st calls) ⟨p, st, st₁, program, calls⟩ := by
  have hsound := h.sound hst calls
  induction h with
  | ret contract => exact .here hsound (.returned contract)
  | stuck refused => exact .here hsound (.refused refused)
  | look found more ih =>
      exact .step hsound (step_look found) (ih hst (more.sound hst calls))
  | get more ih => exact .step hsound rfl (ih hst (more.sound hst calls))
  | put bounds index_le more ih => exact .step hsound rfl (ih bounds (more.sound bounds calls))
  | @call q next st₁ callable smaller again refused returned ih =>
      refine .step hsound rfl ((hcalls q st₁ (.made p st next calls) smaller callable).trans ?_)
      intro c hc hfinished
      cases hfinished with
      | returned contract =>
          have hmeets := returned _ _ contract
          have hbounds := contract.onward.bounds
          exact .step hc rfl (ih _ _ contract hbounds (hmeets.sound hbounds calls))
      | refused hrefused => exact .here hc (.refused (refused _ _ hrefused))

/-- If every body meets its contract, every call comes to its end, and nothing is wrong on the
way. -/
theorem leads_of_bodies (hbody : ∀ p st, m.Callable p st → m.Meets p st (m.body p) st)
    (p : Procedure) (st : State) (h : m.Callable p st) (calls : Calls root p) :
    m.Leads m.Sound (m.Finished p st calls) (m.enter p st calls) := by
  -- on what is left to a call: the calls that it makes have less left to them
  induction hn : m.size (p, st) using WellFoundedLT.induction generalizing p st with
  | ind n ih =>
      subst hn
      refine (hbody p st h).leads h.bounds ?_ calls
      intro q st' calls' hsmaller hcallable
      exact ih _ hsmaller q st' hcallable calls' rfl

end Machine

end FlightCurve

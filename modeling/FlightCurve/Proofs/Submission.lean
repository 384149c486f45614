import FlightCurve.Curve.Submission
import FlightCurve.Proofs.Checked
import FlightCurve.Proofs.Cursor.Sources
import FlightCurve.Proofs.WellScoped

/-!
Submissions with every check in place: sources are read by index, nodes are built by constructors
that may refuse them, and keys are looked up where they may be missing. A submission catches
rejections and nothing else.

The main fact is that there is never anything else to catch, and that an accepted curve is well
scoped, so that it has a value everywhere.
-/

namespace FlightCurve

/-! Well-scoped curves -/

/-- What a curve is made of. -/
structure Curve.Parts where
  x : Function
  y : Function
  assigns : List Function
  names : List String
  sources : Sources

def Curve.parts (c : Curve) : Curve.Parts := ⟨c.x, c.y, c.assigns, c.names, c.sources⟩

namespace Curve.Parts

/-- Assignments refer to the ones before them only, and coordinates to any of them. -/
structure WellScoped (p : Parts) : Prop where
  assigns : ∀ (k : Nat) (f : Function), p.assigns[k]? = some f → f.WellScoped k
  x : p.x.WellScoped p.assigns.length
  y : p.y.WellScoped p.assigns.length

/-- Both coordinates have a value whatever the operations are and wherever they are evaluated, at
one parameter or at an array of them. -/
structure EvaluatesEverywhere (p : Parts) : Prop where
  x : ∀ {α : Type} (ops : Arithmetic α) (t : α), (p.x.evaluateWith ops p.assigns t).isSome
  y : ∀ {α : Type} (ops : Arithmetic α) (t : α), (p.y.evaluateWith ops p.assigns t).isSome
  xMany : ∀ ts : Grid Float, (p.x.evaluateMany p.assigns ts).isSome
  yMany : ∀ ts : Grid Float, (p.y.evaluateMany p.assigns ts).isSome

end Curve.Parts

theorem Function.inOrder_of_forall {fs : List Function} (n : Nat)
    (h : ∀ (k : Nat) (f : Function), fs[k]? = some f → f.refsBelow (n + k) = true) :
    Function.inOrder n fs = true := by
  induction fs generalizing n with
  | nil => rfl
  | cons f fs ih =>
      refine Bool.and_eq_true_iff.2 ⟨h 0 f rfl, ih (n + 1) fun k g hg => ?_⟩
      rw [Nat.add_assoc, Nat.add_comm 1 k]
      exact h (k + 1) g hg

theorem Function.evaluateMany_isSome {assigns : List Function}
    (h : Function.inOrder 0 assigns = true) {f : Function}
    (hf : f.refsBelow assigns.length = true) (ts : Grid Float) :
    (f.evaluateMany assigns ts).isSome := by
  rw [Function.evaluateMany, Option.isSome_map]
  exact Function.evaluateWith_isSome _ _ h hf

/-- No index of a well-scoped curve is out of range when it is evaluated. -/
theorem Curve.Parts.WellScoped.evaluatesEverywhere {p : Curve.Parts} (h : p.WellScoped) :
    p.EvaluatesEverywhere := by
  have hassigns : Function.inOrder 0 p.assigns = true :=
    Function.inOrder_of_forall 0 fun k f hf => (Nat.zero_add k).symm ▸ (h.assigns k f hf).refsBelow
  exact
    { x := fun ops t => Function.evaluateWith_isSome ops t hassigns h.x.refsBelow
      y := fun ops t => Function.evaluateWith_isSome ops t hassigns h.y.refsBelow
      xMany := Function.evaluateMany_isSome hassigns h.x.refsBelow
      yMany := Function.evaluateMany_isSome hassigns h.y.refsBelow }

theorem wellScoped_compile {s : Sources} {c : Curve} (h : s.compile = .ok c) :
    c.parts.WellScoped := by
  unfold Sources.compile at h
  split at h
  · cases h
  · rename_i assigns scope hassigns
    split at h
    · cases h
    · rename_i x hx
      split at h
      · cases h
      · rename_i y hy
        cases h
        obtain ⟨_, hbounded, hcount⟩ := compileAssignments_eq_ok hassigns
        exact
          { assigns := wellScoped_compileAssignments hassigns
            x := hcount ▸ wellScoped_compileExpr hbounded hx
            y := hcount ▸ wellScoped_compileExpr hbounded hy }

/-! Checked compilation -/

/-- Where a reading is stuck, its source is rejected. -/
def Failure.ofStop (source : String) : Cursor.Stop → Failure CompileError
  | .stuck reason tok =>
      .rejected (.inSource source ⟨.malformed (some (reason.detail tok)), tok.position⟩)
  | .outOfRange => .outOfRange
  | .stalled => .stalled

namespace Checked

def parseExpr (source : String) (axis : Option String) : Except (Failure CompileError) Expr := do
  let s ← (scanSource source).mapError .rejected
  (Cursor.curveExpr s.withEof axis).mapError (.ofStop source)

def parseAssignments (source : String) : Except (Failure CompileError) (List Assignment) := do
  let s ← (scanSource source).mapError .rejected
  (Cursor.clause s.withEof).mapError (.ofStop source)

def compileExpr (source : String) (scope : Scope) (axis : Option String) :
    Except (Failure CompileError) Function := do
  let tree ← parseExpr source axis
  (ofTree scope tree).mapError (.map (.inSource source))

def compileAssignments (source : String) :
    Except (Failure CompileError) (List Function × Scope) := do
  let as ← parseAssignments source
  (ofAssignments .initial as).mapError (.map (.inSource source))

def compile (s : Sources) : Except (Failure CompileError) Curve.Parts := do
  let (assigns, scope) ← (compileAssignments s.clause).mapError (.map (.withPart wherePart))
  let x ← (compileExpr s.x scope (some "x")).mapError (.map (.withPart xPart))
  let y ← (compileExpr s.y scope (some "y")).mapError (.map (.withPart yPart))
  .ok ⟨x, y, assigns, scope.names, s⟩

/-- What a submission leaves: a curve or an error, and the status line. -/
structure Result where
  curve : Option Curve.Parts
  error : Option CompileError
  status : String

/-- Compiles a submission and catches rejections. -/
def submit (s : Sources) : Except (Failure CompileError) Result :=
  match compile s with
  | .ok parts => .ok ⟨some parts, none, successStatus⟩
  | .error (.rejected e) => .ok ⟨none, some e, e.describe⟩
  | .error failure => .error failure

/-! No check fails -/

theorem parseExpr_eq (source : String) (axis : Option String) :
    parseExpr source axis = (FlightCurve.parseExpr source axis).mapError .rejected := by
  rw [parseExpr, FlightCurve.parseExpr, scanSource, Outcome.mapError_bind]
  cases hscan : scan source with
  | error c => rfl
  | ok s =>
      change (Cursor.curveExpr s.withEof axis).mapError (Failure.ofStop source) =
        ((s.curveExpr axis).mapError _).mapError Failure.rejected
      rw [Cursor.curveExpr_eq (kind_ne_eof_of_scan hscan)]
      cases s.curveExpr axis <;> rfl

theorem parseAssignments_eq (source : String) :
    parseAssignments source = (FlightCurve.parseAssignments source).mapError .rejected := by
  rw [parseAssignments, FlightCurve.parseAssignments, scanSource, Outcome.mapError_bind]
  cases hscan : scan source with
  | error c => rfl
  | ok s =>
      change (Cursor.clause s.withEof).mapError (Failure.ofStop source) =
        (s.assignments.mapError _).mapError Failure.rejected
      rw [Cursor.clause_eq (kind_ne_eof_of_scan hscan)]
      cases s.assignments <;> rfl

theorem compileExpr_eq (source : String) (scope : Scope) (axis : Option String) :
    compileExpr source scope axis =
      (FlightCurve.compileExpr source scope axis).mapError .rejected := by
  rw [compileExpr, FlightCurve.compileExpr, parseExpr_eq, Outcome.mapError_bind]
  refine congrArg (_ >>= ·) (funext fun tree => ?_)
  rw [ofTree_eq]
  cases Function.ofTree scope tree <;> rfl

theorem compileAssignments_eq (source : String) :
    compileAssignments source = (FlightCurve.compileAssignments source).mapError .rejected := by
  rw [compileAssignments, FlightCurve.compileAssignments, parseAssignments_eq,
    Outcome.mapError_bind]
  refine congrArg (_ >>= ·) (funext fun as => ?_)
  rw [ofAssignments_eq]
  cases Function.ofAssignments .initial as <;> rfl

/-- Checked compilation is compilation. -/
theorem compile_eq (s : Sources) :
    compile s = (s.compile.map Curve.parts).mapError .rejected := by
  -- the sources are compiled in the same order both ways, and the first that is rejected ends both
  generalize hchecked : compile s = checked
  rw [compile, compileAssignments_eq] at hchecked
  unfold Sources.compile
  split
  · rename_i e hassigns
    rw [hassigns] at hchecked
    exact hchecked.symm
  · rename_i assigns scope hassigns
    rw [hassigns] at hchecked
    change ((compileExpr s.x scope (some "x")).mapError _ >>= _) = checked at hchecked
    rw [compileExpr_eq] at hchecked
    split
    · rename_i e hx
      rw [hx] at hchecked
      exact hchecked.symm
    · rename_i x hx
      rw [hx] at hchecked
      change ((compileExpr s.y scope (some "y")).mapError _ >>= _) = checked at hchecked
      rw [compileExpr_eq] at hchecked
      split
      · rename_i e hy
        rw [hy] at hchecked
        exact hchecked.symm
      · rename_i y hy
        rw [hy] at hchecked
        exact hchecked.symm

end Checked

/-- A submission returns, with a curve or with an error and not with both. The curve is well scoped
and has a value everywhere. -/
theorem Submission.submit_wellScoped (s : Sources) :
    ∃ r, Checked.submit s = .ok r ∧ r.status = (Submission.submit s).status ∧
      ((∃ e, (Submission.submit s).outcome = .error e ∧ r.curve = none ∧ r.error = some e) ∨
        ∃ c, (Submission.submit s).outcome = .ok c ∧ r.curve = some c.parts ∧ r.error = none ∧
          c.parts.WellScoped ∧ c.parts.EvaluatesEverywhere) := by
  have hchecked := Checked.compile_eq s
  unfold Checked.submit Submission.submit Submission.status
  rw [hchecked]
  cases hcompile : s.compile with
  | error e => exact ⟨_, rfl, rfl, .inl ⟨e, rfl, rfl, rfl⟩⟩
  | ok c =>
      have hscoped := wellScoped_compile hcompile
      exact ⟨_, rfl, rfl, .inr ⟨c, rfl, rfl, rfl, hscoped, hscoped.evaluatesEverywhere⟩⟩

end FlightCurve

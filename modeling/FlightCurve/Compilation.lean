import FlightCurve.Function.OfTree
import FlightCurve.Tree.Parser

/-!
Compiling one source: cutting it into tokens, reading its tree, giving the tree a meaning. A source
is read to its end before any name is looked up, so a syntax error comes before every other one.
-/

namespace FlightCurve

/-- The fault that a reader of `s` got stuck at: it lies at the next token, or at the end. -/
def Stuck.fault (s : Scanned) (stuck : Stuck) : Placed Cause :=
  let tok := s.current stuck.rest
  ⟨.malformed (some (stuck.reason.detail tok)), tok.position⟩

/-- The fault that a character begins no token. -/
def unexpectedCharacter (c : Placed Char) : Placed Cause :=
  ⟨.malformed (some ("Unexpected character: " ++ Text.quoted (String.singleton c.value))),
    c.position⟩

/-- The tokens of a source. -/
def scanSource (source : String) : Except CompileError Scanned :=
  (scan source).mapError fun c => .inSource source (unexpectedCharacter c)

/-- A source that is read can be cut into tokens. -/
theorem exists_scan_of_read {source : String} {α : Type} {read : Scanned → Except CompileError α}
    {value : α} (h : scanSource source >>= read = .ok value) : ∃ s, scan source = .ok s := by
  obtain ⟨s, hs, _⟩ := Outcome.bind_eq_ok_iff.1 h
  exact ⟨s, Outcome.mapError_eq_ok_iff.1 hs⟩

/-- The tree of a curve expression. A header `name(t) =` may stand before it; where an axis is
given, the header must name it. -/
def parseExpr (source : String) (axis : Option String) : Except CompileError Expr := do
  let s ← scanSource source
  (s.curveExpr axis).mapError fun stuck => .inSource source (stuck.fault s)

/-- The assignments of a where clause, in the order of the text. -/
def parseAssignments (source : String) : Except CompileError (List Assignment) := do
  let s ← scanSource source
  s.assignments.mapError fun stuck => .inSource source (stuck.fault s)

/-- The function that a curve expression denotes in a scope. -/
def compileExpr (source : String) (scope : Scope) (axis : Option String) :
    Except CompileError Function := do
  let tree ← parseExpr source axis
  (Function.ofTree scope tree).mapError (.inSource source)

/-- The functions of a where clause, and the scope of its names. -/
def compileAssignments (source : String) : Except CompileError (List Function × Scope) := do
  let as ← parseAssignments source
  (Function.ofAssignments .initial as).mapError (.inSource source)

theorem refsBelow_compileExpr {source : String} {scope : Scope} {axis : Option String}
    {f : Function} (hs : scope.Bounded) (h : compileExpr source scope axis = .ok f) :
    f.refsBelow scope.count = true := by
  obtain ⟨tree, _, h⟩ := Outcome.bind_eq_ok_iff.1 h
  exact Function.refsBelow_ofTree hs.visible tree (Outcome.mapError_eq_ok_iff.1 h)

/-- The assignments of a where clause refer backwards, and its scope has one index for each. -/
theorem compileAssignments_eq_ok {source : String} {fs : List Function} {scope : Scope}
    (h : compileAssignments source = .ok (fs, scope)) :
    Function.inOrder 0 fs = true ∧ scope.Bounded ∧ scope.count = fs.length := by
  obtain ⟨as, _, h⟩ := Outcome.bind_eq_ok_iff.1 h
  obtain ⟨ho, hb, hc⟩ :=
    Function.ofAssignments_eq_ok Scope.bounded_initial (Outcome.mapError_eq_ok_iff.1 h)
  exact ⟨ho, hb, hc.trans (Nat.zero_add _)⟩

end FlightCurve

import FlightCurve.Arithmetic.Double
import FlightCurve.Arithmetic.Grid
import FlightCurve.Compilation
import FlightCurve.Function.Evaluation
import FlightCurve.Function.Printer

/-!
Parametric curves. A curve is two functions of the parameter over common assignments; what they
refer to is there, so a curve has a position for every value of the parameter.
-/

namespace FlightCurve

structure Point where
  x : Float
  y : Float
  deriving DecidableEq, Repr

/-- The three sources of a submission. -/
structure Sources where
  x : String
  y : String
  clause : String := ""
  deriving DecidableEq, Repr

/-- A compiled curve, with the names of its assignments and the sources it was compiled from. -/
structure Curve where
  x : Function
  y : Function
  assigns : List Function
  names : List String
  sources : Sources
  assigns_inOrder : Function.inOrder 0 assigns = true
  x_refsBelow : x.refsBelow assigns.length = true
  y_refsBelow : y.refsBelow assigns.length = true

namespace Curve

def text (c : Curve) : String := "(" ++ c.x.text ++ ", " ++ c.y.text ++ ")"

/-- The value of the first coordinate with the given operations. -/
def xWith {α : Type} (ops : Arithmetic α) (c : Curve) (t : α) : α :=
  (c.x.evaluateWith ops c.assigns t).get
    (Function.evaluateWith_isSome ops t c.assigns_inOrder c.x_refsBelow)

/-- The value of the second coordinate with the given operations. -/
def yWith {α : Type} (ops : Arithmetic α) (c : Curve) (t : α) : α :=
  (c.y.evaluateWith ops c.assigns t).get
    (Function.evaluateWith_isSome ops t c.assigns_inOrder c.y_refsBelow)

/-- The position on the curve at a parameter. -/
def position (c : Curve) (t : Float) : Point := ⟨c.xWith .double t, c.yWith .double t⟩

/-- The positions at an array of parameters, each coordinate computed over the whole array. -/
def positions (c : Curve) (ts : Grid Float) : Grid Point :=
  let ops := Arithmetic.sampled .double
  let xs := (c.xWith ops (.varying ts)).spread ts
  let ys := (c.yWith ops (.varying ts)).spread ts
  xs.zip Point.mk ys

end Curve

/-- The values of a function at an array of parameters. -/
def Function.evaluateMany (assigns : List Function) (ts : Grid Float) (f : Function) :
    Option (Grid Float) :=
  (f.evaluateWith (.sampled .double) assigns (.varying ts)).map (·.spread ts)

/-- Compiles the where clause, then each coordinate in its scope. The first source that fails is
named in the rejection. -/
def Sources.compile (s : Sources) : Except CompileError Curve :=
  match hc : compileAssignments s.clause with
  | .error e => .error (e.withPart wherePart)
  | .ok (assigns, scope) =>
      match hx : compileExpr s.x scope (some "x") with
      | .error e => .error (e.withPart xPart)
      | .ok x =>
          match hy : compileExpr s.y scope (some "y") with
          | .error e => .error (e.withPart yPart)
          | .ok y =>
              have facts := compileAssignments_eq_ok hc
              .ok
                { x, y, assigns
                  names := scope.names
                  sources := s
                  assigns_inOrder := facts.1
                  x_refsBelow := facts.2.2 ▸ refsBelow_compileExpr facts.2.1 hx
                  y_refsBelow := facts.2.2 ▸ refsBelow_compileExpr facts.2.1 hy }

end FlightCurve

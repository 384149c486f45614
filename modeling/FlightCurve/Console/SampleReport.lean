import FlightCurve.Console.Table
import FlightCurve.Curve.Trajectory
import FlightCurve.Settings

/-!
Samples of a curve as a table for people, and as JSON for programs.
-/

namespace FlightCurve.SampleReport

/-- The table of samples: the parameter, the time at which a flight passes, and the position. -/
def table (sources : Sources) (settings : Settings) (samples : List Sample) : Console.Table :=
  let number := Decimal.fixed settings.precision
  { title := "(" ++ Console.escaped sources.x ++ ", " ++ Console.escaped sources.y ++ ")"
    headings := ["t", "seconds", "x", "y"]
    rows := samples.map fun s =>
      [number s.t, Decimal.fixed 2 (s.t * settings.flightTime), number s.position.x,
        number s.position.y] }

/-- A number in JSON, with the usual words for those that JSON does not have. -/
def jsonNumber (x : Float) : String :=
  match Double.decode x with
  | .nan => "NaN"
  | .infinite negative => if negative then "-Infinity" else "Infinity"
  | .finite .. => Decimal.shortest x

/-- A member of an object. The last one has no comma. -/
def jsonMember (name : String) (x : Float) (isLast : Bool) : String :=
  "    \"" ++ name ++ "\": " ++ jsonNumber x ++ (if isLast then "" else ",")

def jsonObject (s : Sample) (isLast : Bool) : List String :=
  [ "  \x7b", jsonMember "t" s.t false, jsonMember "x" s.position.x false,
    jsonMember "y" s.position.y true, if isLast then "  \x7d" else "  \x7d," ]

def jsonObjects : List Sample → List String
  | [] => []
  | [s] => jsonObject s true
  | s :: rest => jsonObject s false ++ jsonObjects rest

/-- The lines of a JSON array with an object for each sample. -/
def jsonLines (samples : List Sample) : List String :=
  if samples.isEmpty then ["[]"] else "[" :: (jsonObjects samples ++ ["]"])

end FlightCurve.SampleReport

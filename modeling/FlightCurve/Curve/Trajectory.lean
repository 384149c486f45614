import FlightCurve.Curve.Sampling

/-!
Timed flight along a curve. The curve is run through at `t = elapsed / flightTime` and shifted, so
that the flight starts at its origin: the offset is the origin less the position at zero.
-/

namespace FlightCurve

/-- A flight time that is no duration. -/
structure InvalidFlightTime where
  value : Float
  deriving DecidableEq, Repr

def InvalidFlightTime.message (e : InvalidFlightTime) : String :=
  "flight_time must be positive, got " ++ Decimal.shortest e.value

def defaultFlightTime : Float := 5

/-- A duration is positive and finite. -/
def IsDuration (seconds : Float) : Prop := 0 < seconds ∧ seconds.isFinite = true

instance (seconds : Float) : Decidable (IsDuration seconds) :=
  inferInstanceAs (Decidable (_ ∧ _))

structure Trajectory where
  curve : Curve
  origin : Point
  flightTime : Float
  isDuration : IsDuration flightTime

namespace Trajectory

/-- A flight along a curve. The flight time must be a duration. -/
def new? (curve : Curve) (origin : Point) (flightTime : Float) :
    Except InvalidFlightTime Trajectory :=
  if h : IsDuration flightTime then .ok ⟨curve, origin, flightTime, h⟩
  else .error ⟨flightTime⟩

/-- What the positions of the curve are shifted by. -/
def offset (f : Trajectory) : Point :=
  let start := f.curve.position 0
  ⟨f.origin.x - start.x, f.origin.y - start.y⟩

/-- The curve parameter after some time: the part of the flight time that has elapsed, kept between
0 and 1. A NaN stays a NaN and a negative zero stays one. -/
def progress (f : Trajectory) (elapsed : Float) : Float :=
  let part := elapsed / f.flightTime
  let atLeastZero := if part < 0 then 0 else part
  if 1 < atLeastZero then 1 else atLeastZero

def isFinished (f : Trajectory) (elapsed : Float) : Bool := f.flightTime ≤ elapsed

def shift (f : Trajectory) (p : Point) : Point := ⟨p.x + f.offset.x, p.y + f.offset.y⟩

def positionAt (f : Trajectory) (elapsed : Float) : Point :=
  f.shift (f.curve.position (f.progress elapsed))

/-- Evenly spaced samples of the curve, shifted to where the flight passes. -/
def sample (f : Trajectory) (count : Int) : Except SamplingError (List Sample) :=
  (f.curve.sample count).map fun samples =>
    samples.map fun s => { s with position := f.shift s.position }

end Trajectory

/-- The direction from one point to another, as an angle from the x axis. There is none between
equal points. -/
def heading (previous current : Point) : Option Float :=
  let dx := current.x - previous.x
  let dy := current.y - previous.y
  if dx == 0 && dy == 0 then none else some (Float.atan2 dy dx)

end FlightCurve

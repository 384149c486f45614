import FlightCurve.Curve
import FlightCurve.Log

/-!
Submissions: the outcome of compiling three sources, the status line that the player sees, and the
records that the compilation leaves.
-/

namespace FlightCurve

/-- The status of a submission that was accepted. -/
def successStatus : String := "Successfully entered functions"

/-- A submission is accepted with its curve, or rejected with one error. -/
structure Submission where
  sources : Sources
  outcome : Except CompileError Curve

namespace Submission

def submit (s : Sources) : Submission := ⟨s, s.compile⟩

def isAccepted (s : Submission) : Bool :=
  match s.outcome with
  | .ok _ => true
  | .error _ => false

def status (s : Submission) : String :=
  match s.outcome with
  | .ok _ => successStatus
  | .error e => e.describe

/-- What is recorded of a rejection: its description, and the explanation of a syntax error. -/
def rejectionLog (e : CompileError) : List LogRecord :=
  ⟨.info, "Rejected submission: " ++ e.describe⟩ ::
    match e.cause.detail? with
    | some detail => if detail = "" then [] else [⟨.debug, "Parser detail: " ++ detail⟩]
    | none => []

/-- The records of a submission, in order. -/
def log (s : Submission) : List LogRecord :=
  ⟨.debug, "Compiling curve x=" ++ Text.quoted s.sources.x ++ " y=" ++ Text.quoted s.sources.y ++
    " where=" ++ Text.quoted s.sources.clause⟩ ::
    match s.outcome with
    | .error e => rejectionLog e
    | .ok c =>
        [⟨.debug, "Compiled curve " ++ c.text ++ " with " ++ toString c.assigns.length ++
          " assignment(s)"⟩]

end Submission

end FlightCurve

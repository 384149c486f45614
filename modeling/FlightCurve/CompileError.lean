import FlightCurve.Text.Lines
import FlightCurve.Token

/-!
Rejections of a source: what is wrong, where, and in which of the submitted sources. Every wording
that a player sees is here.
-/

namespace FlightCurve

/-- A place as it is reported, with the text of its line where that is known. -/
structure Place where
  line : Int
  column : Int
  snippet : Option String
  deriving DecidableEq, Repr

namespace Place

def ofPosition (source : String) (p : Position) : Place :=
  ⟨p.line, p.column, Text.line? source p.line⟩

/-- The text with spaces before it, up to a width. -/
def padLeft (width : Nat) (text : String) : String :=
  String.ofList (List.replicate (width - text.length) ' ') ++ text

/-- What stands before the snippet: the number of its line. -/
def margin (p : Place) : String := padLeft 4 (toString p.line) ++ " | "

/-- How many spaces stand before the marks under the snippet. -/
def indent (p : Place) : Int := p.margin.length + p.column - 1

/-- Line and column, and the snippet with three marks under it that begin at the column. -/
def format (p : Place) : String :=
  let location := toString p.line ++ ":" ++ toString p.column
  match p.snippet with
  | none => location
  | some snippet =>
      location ++ "\n" ++ p.margin ++ snippet ++ "\n" ++
        String.ofList (List.replicate p.indent.toNat ' ') ++ "^^^"

/-- A message under the place that it is about, if there is one. -/
def withMessage (place : Option Place) (message : String) : String :=
  match place with
  | none => message
  | some p => p.format ++ "\n" ++ message

/-- Why a place cannot be shown: the marks under its snippet stand too far away. -/
inductive Fault
  | uncountable
  | outOfMemory
  deriving DecidableEq, Repr

def Fault.message : Fault → String
  | .uncountable => "cannot fit 'int' into an index-sized integer"
  | .outOfMemory => "out of memory"

/-- What is in the way of showing a place. A number of spaces is counted by a word of 64 bits with a
sign, and a line of them has to fit into memory. -/
def fault? (p : Place) : Option Fault :=
  if p.snippet.isNone then none
  else if p.indent < -0x8000000000000000 ∨ 0x7fffffffffffffff < p.indent then some .uncountable
  else if 0x100000000 ≤ p.indent then some .outOfMemory
  else none

end Place

/-- How many arguments a call gives to its function. -/
inductive Arity
  | one
  | two
  deriving DecidableEq, Repr

namespace Arity

/-- A call is taken for one with two arguments unless it has exactly one. -/
def ofCount (n : Int) : Arity := if n = 1 then .one else .two

def adjective : Arity → String
  | .one => "unary"
  | .two => "binary"

end Arity

/-- What is wrong with a source. A malformed one does not follow the grammar; the others do, and
have no meaning. -/
inductive Cause
  | malformed (detail : Option String)
  | unknownVariable (name : String)
  | unknownFunction (arity : Arity) (name : String)
  | alreadyDefined (name : String)
  | constantTarget (name : String)
  | other (message : String)
  deriving DecidableEq, Repr

namespace Cause

def message : Cause → String
  | .malformed _ => "syntax"
  | .unknownVariable name => "unknown variable: " ++ name
  | .unknownFunction arity name => "unknown " ++ arity.adjective ++ " function: " ++ name
  | .alreadyDefined name => "'" ++ name ++ "' is already defined"
  | .constantTarget name => "cannot assign to constant '" ++ name ++ "'"
  | .other message => message

/-- The name that a rejection is about. -/
def name? : Cause → Option String
  | .unknownVariable name => some name
  | .unknownFunction _ name => some name
  | .alreadyDefined name => some name
  | .constantTarget name => some name
  | _ => none

def detail? : Cause → Option String
  | .malformed detail => detail
  | _ => none

end Cause

/-- The sources of a submission, by the labels that players see. -/
def wherePart : String := "where"

def xPart : String := "x(t)"

def yPart : String := "y(t)"

structure CompileError where
  cause : Cause
  place : Place
  part : Option String := none
  deriving DecidableEq, Repr

namespace CompileError

/-- The rejection of `source` for a fault at a position in it. -/
def inSource (source : String) (fault : Placed Cause) : CompileError :=
  { cause := fault.value, place := .ofPosition source fault.position }

def withPart (part : String) (e : CompileError) : CompileError := { e with part := some part }

/-- The status line. Only a where clause can have several lines, so only there the line is named. -/
def describe (e : CompileError) : String :=
  let column := "col " ++ toString e.place.column
  let location :=
    if e.part = some wherePart then
      "'" ++ wherePart ++ "' (line " ++ toString e.place.line ++ " " ++ column ++ ")"
    else
      let label := e.part.getD ""
      (if label = "" then "expression" else label) ++ " (" ++ column ++ ")"
  "Error in " ++ location ++ ": " ++ e.cause.message

/-- The place with its snippet, and the message. -/
def text (e : CompileError) : String := Place.withMessage (some e.place) e.cause.message

end CompileError

end FlightCurve

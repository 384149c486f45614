import FlightCurve.Folder
import FlightCurve.Log
import FlightCurve.Number.Numeral
import FlightCurve.Text.Blank
import FlightCurve.Toml.Document

/-!
Settings in layers: defaults, the table of a document, and two variables of the environment. A later
layer wins, each setting on its own; what the document says is checked even where a variable
overrides it.
-/

namespace FlightCurve

structure Settings where
  flightTime : Float := 5
  samples : Nat := 11
  precision : Nat := 6
  deriving DecidableEq, Repr

/-- The name of the table in the document, and of the document that is looked for. -/
def settingsTable : String := "curvefire"

def settingsFile : String := "curvefire.toml"

def flightTimeKey : String := "flight_time"

def samplesKey : String := "samples"

def precisionKey : String := "precision"

def flightTimeVariable : String := "CURVEFIRE_FLIGHT_TIME"

def samplesVariable : String := "CURVEFIRE_SAMPLES"

/-- The most digits after the point that may be asked for. -/
def maxPrecision : Nat := 17

/-- What is wrong with the settings. An offending value is given as it is shown. -/
inductive SettingsError
  | notFound (path : String)
  | unreadable (path : String)
  | malformed (path : String)
  | notTable (path : String)
  | flightTimeKind (shown : String)
  | flightTimeRange (shown : String)
  | samples (shown : String)
  | precision (shown : String)
  | flightTimeText (text : String)
  | samplesText (text : String)
  deriving DecidableEq, Repr

namespace SettingsError

def message : SettingsError → String
  | .notFound path => "Config file not found: " ++ path
  | .unreadable path => "Cannot read " ++ path
  | .malformed path => "Invalid TOML in " ++ path
  | .notTable path => "[" ++ settingsTable ++ "] in " ++ path ++ " must be a table"
  | .flightTimeKind shown => flightTimeKey ++ " must be a number, got " ++ shown
  | .flightTimeRange shown => flightTimeKey ++ " must be positive, got " ++ shown
  | .samples shown => samplesKey ++ " must be a positive integer, got " ++ shown
  | .precision shown =>
      precisionKey ++ " must be an integer from 0 to " ++ toString maxPrecision ++ ", got " ++ shown
  | .flightTimeText text => flightTimeVariable ++ " must be a number, got '" ++ text ++ "'"
  | .samplesText text => samplesVariable ++ " must be an integer, got '" ++ text ++ "'"

/-- Whether the message goes on with an explanation that is not part of it. -/
def isOpenEnded : SettingsError → Bool
  | .unreadable _ => true
  | .malformed _ => true
  | _ => false

end SettingsError

/-- Why there are no settings: they are wrong, a number in them is too large to be handled, or a
value in the document nests too deep to be read or shown. -/
inductive SettingsFailure
  | invalid (error : SettingsError)
  | integerTooLarge
  | tooManyDigits (digits : Option Nat)
  | tooDeep
  deriving DecidableEq, Repr

namespace SettingsFailure

def message : SettingsFailure → String
  | .invalid error => error.message
  | .integerTooLarge => "int too large to convert to float"
  | .tooManyDigits digits =>
      "Exceeds the limit (" ++ toString Numeral.maxDigits ++
        " digits) for integer string conversion" ++
        (match digits with
          | some n => ": value has " ++ toString n ++ " digits"
          | none => "") ++
        "; use sys.set_int_max_str_digits() to increase the limit"
  | .tooDeep => "maximum recursion depth exceeded"

end SettingsFailure

namespace Settings

def defaults : Settings := {}

/-! Checks of the values in a document -/

/-- A failure that shows the offending value, if it can be shown. -/
def offending {α : Type} (error : String → SettingsError) (v : Toml.Value) :
    Except SettingsFailure α :=
  match v.shown with
  | .ok shown => .error (.invalid (error shown))
  | .error .tooManyDigits => .error (.tooManyDigits none)
  | .error .tooDeep => .error .tooDeep

/-- A flight time is a number, positive and finite. -/
def flightTimeOf (v : Toml.Value) : Except SettingsFailure Float :=
  match v with
  | .int n =>
      if n ≤ 0 then offending .flightTimeRange v
      else
        let x := Float.ofNat n.toNat
        if x.isInf then .error .integerTooLarge else .ok x
  | .float x => if 0 < x ∧ x.isFinite then .ok x else offending .flightTimeRange v
  | _ => offending .flightTimeKind v

/-- A number of samples is a positive integer. -/
def samplesOf (v : Toml.Value) : Except SettingsFailure Nat :=
  match v with
  | .int n => if n < 1 then offending .samples v else .ok n.toNat
  | _ => offending .samples v

/-- A precision is an integer from 0 to the greatest one. -/
def precisionOf (v : Toml.Value) : Except SettingsFailure Nat :=
  match v with
  | .int n => if n < 0 ∨ maxPrecision < n then offending .precision v else .ok n.toNat
  | _ => offending .precision v

/-- The setting at a key, or the default where the key is missing. -/
def setting {α : Type} (table : Toml.Table) (key : String)
    (read : Toml.Value → Except SettingsFailure α) (otherwise : α) : Except SettingsFailure α :=
  match table.lookup key with
  | none => .ok otherwise
  | some v => read v

/-- The settings that a table gives. -/
def ofTable (table : Toml.Table) : Except SettingsFailure Settings := do
  let flightTime ← setting table flightTimeKey flightTimeOf defaults.flightTime
  let samples ← setting table samplesKey samplesOf defaults.samples
  let precision ← setting table precisionKey precisionOf defaults.precision
  .ok { flightTime, samples, precision }

/-! The environment -/

/-- Variables with their values. -/
abbrev Environment := List (String × String)

/-- The value of a variable without the blanks around it, unless nothing is left. -/
def textOf? (environment : Environment) (name : String) : Option (List Char) :=
  let text := Text.trim Text.isBlank ((environment.lookup name).getD "").toList
  if text.isEmpty then none else some text

/-- What a variable sets, or what is set without it. -/
def override {α : Type} (environment : Environment) (name : String)
    (read? : List Char → Option Toml.Value) (error : String → SettingsError)
    (check : Toml.Value → Except SettingsFailure α) (otherwise : α) : Except SettingsFailure α :=
  match textOf? environment name with
  | none => .ok otherwise
  | some text =>
      match read? text with
      | none => .error (.invalid (error (String.ofList text)))
      | some v => check v

def overridden (environment : Environment) (s : Settings) : Except SettingsFailure Settings := do
  let flightTime ← override environment flightTimeVariable
    (fun text => (Numeral.float? text).map .float) .flightTimeText flightTimeOf s.flightTime
  let samples ← override environment samplesVariable
    (fun text => (Numeral.int? text).map .int) .samplesText samplesOf s.samples
  .ok { s with flightTime, samples }

/-- The settings of a table under the environment. -/
def layered (table : Toml.Table) (environment : Environment) : Except SettingsFailure Settings := do
  (← ofTable table).overridden environment

def isKnownKey (key : String) : Bool :=
  key = flightTimeKey || key = samplesKey || key = precisionKey

/-- One warning for each key that is not a setting, in the order of the table. -/
def warnings (table : Toml.Table) : List LogRecord :=
  (table.filter fun entry => !isKnownKey entry.1).map fun entry =>
    ⟨.warning, "Ignoring unknown setting '" ++ entry.1 ++ "' in " ++ settingsFile⟩

/-! The document -/

/-- Every end of a line as a line feed. -/
def unifyLineEnds : List Char → List Char
  | '\r' :: '\n' :: cs => '\n' :: unifyLineEnds cs
  | '\r' :: cs => '\n' :: unifyLineEnds cs
  | c :: cs => c :: unifyLineEnds cs
  | [] => []

/-- The settings table of a document. -/
def tableOf (path : String) (node : FolderNode) : Except SettingsFailure Toml.Table :=
  match node with
  | .folder => .error (.invalid (.unreadable path))
  | .file content =>
      match String.fromUTF8? content with
      | none => .error (.invalid (.unreadable path))
      | some text =>
          match Toml.parse (unifyLineEnds text.toList) with
          | .error .malformed => .error (.invalid (.malformed path))
          | .error (.longInteger digits) => .error (.tooManyDigits (some digits))
          | .error .tooDeep => .error .tooDeep
          | .ok root =>
              match root.lookup settingsTable with
              | none => .ok []
              | some (.table table) => .ok table
              | some _ => .error (.invalid (.notTable path))

/-- The table of the document at a path; without a path, of the one in the working folder if it is
there. -/
def readTable (folder : Folder) (path : Option String) : Except SettingsFailure Toml.Table :=
  let place := FolderPath.ofText (path.getD settingsFile)
  match folder.find? place, path with
  | some node, _ => tableOf place.text node
  | none, none => .ok []
  | none, some _ => .error (.invalid (.notFound place.text))

/-- What came of loading settings, and the warnings that were given. -/
structure Loaded where
  log : List LogRecord
  outcome : Except SettingsFailure Settings

def load (folder : Folder) (path : Option String) (environment : Environment) : Loaded :=
  match readTable folder path with
  | .error failure => ⟨[], .error failure⟩
  | .ok table => ⟨warnings table, layered table environment⟩

end Settings

end FlightCurve

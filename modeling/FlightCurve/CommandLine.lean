import FlightCurve.Console.SampleReport
import FlightCurve.Reference
import FlightCurve.Curve.Submission

/-!
The command line: options and commands, and what a run of the program prints and how it ends. A run
is a function of the arguments, the working folder and the environment.
-/

namespace FlightCurve.CommandLine

/-! Words -/

inductive Switch
  | version
  | config
  | verbose
  | help
  | x
  | y
  | clause
  | samples
  | json
  deriving DecidableEq, Repr

/-- How a switch is written: two dashes and a name, or one dash and a letter. One that takes a value
takes the rest of its word, or else the next word. -/
structure SwitchForm where
  switch : Switch
  name : String
  letter : Option Char
  takesValue : Bool

/-- The switches before the command. -/
def globalForms : List SwitchForm :=
  [⟨.version, "--version", none, false⟩, ⟨.config, "--config", some 'c', true⟩,
   ⟨.verbose, "--verbose", none, false⟩, ⟨.help, "--help", none, false⟩]

inductive Command
  | check
  | sample
  | reference
  deriving DecidableEq, Repr

def Command.ofName? : String → Option Command
  | "check" => some .check
  | "sample" => some .sample
  | "reference" => some .reference
  | _ => none

/-- The switches of a submission. -/
def submissionForms : List SwitchForm :=
  [⟨.x, "--x", some 'x', true⟩, ⟨.y, "--y", some 'y', true⟩, ⟨.clause, "--where", some 'w', true⟩]

/-- The switches after the command. -/
def Command.forms : Command → List SwitchForm
  | .check => submissionForms ++ [⟨.help, "--help", none, false⟩]
  | .sample =>
      submissionForms ++
        [⟨.samples, "--samples", some 'n', true⟩, ⟨.json, "--json", none, false⟩,
         ⟨.help, "--help", none, false⟩]
  | .reference => [⟨.help, "--help", none, false⟩]

/-- A switch with its value, which is empty for a switch that takes none. -/
abbrev Given := Switch × String

/-- The switches in a word, and the one that waits for the next word as its value. -/
structure WordReading where
  given : List Given
  waiting : Option Switch

/-- The letters after a single dash. -/
def readLetters (forms : List SwitchForm) : List Char → Option WordReading
  | [] => some ⟨[], none⟩
  | c :: cs =>
      match forms.find? (·.letter = some c) with
      | none => none
      | some form =>
          if form.takesValue then
            if cs.isEmpty then some ⟨[], some form.switch⟩
            else some ⟨[(form.switch, String.ofList cs)], none⟩
          else
            (readLetters forms cs).map fun r => { r with given := (form.switch, "") :: r.given }

/-- A word up to its first equals sign, and what follows the sign. -/
def splitEquals (word : List Char) : List Char × Option (List Char) :=
  match word.dropWhile (· ≠ '=') with
  | [] => (word, none)
  | _ :: value => (word.takeWhile (· ≠ '='), some value)

/-- A word that begins with a dash: a name, or letters. -/
def readWord (forms : List SwitchForm) (word : List Char) : Option WordReading :=
  let (name, value?) := splitEquals word
  match forms.find? (·.name.toList = name), value? with
  | some form, some value =>
      if form.takesValue then some ⟨[(form.switch, String.ofList value)], none⟩ else none
  | some form, none =>
      if form.takesValue then some ⟨[], some form.switch⟩ else some ⟨[(form.switch, "")], none⟩
  | none, _ =>
      match word with
      | '-' :: '-' :: _ => none
      | '-' :: letters => readLetters forms letters
      | _ => none

/-- The switches in the words, and the words that are none. -/
structure WordsReading where
  given : List Given
  rest : List String

/-- Reads words up to two dashes; before the command, up to the first word that is no switch. -/
def readWords (forms : List SwitchForm) (stopsAtOther : Bool) : List String → Option WordsReading
  | [] => some ⟨[], []⟩
  | word :: words =>
      if word = "--" then some ⟨[], words⟩
      else if word.startsWith "-" ∧ word ≠ "-" then
        match readWord forms word.toList with
        | none => none
        | some ⟨given, none⟩ =>
            (readWords forms stopsAtOther words).map fun r => { r with given := given ++ r.given }
        | some ⟨given, some switch⟩ =>
            match words with
            | [] => none
            | value :: words =>
                (readWords forms stopsAtOther words).map fun r =>
                  { r with given := given ++ (switch, value) :: r.given }
      else if stopsAtOther then some ⟨[], word :: words⟩
      else (readWords forms stopsAtOther words).map fun r => { r with rest := word :: r.rest }

def hasSwitch (given : List Given) (switch : Switch) : Bool := given.any (·.1 = switch)

/-- The value that was given last. -/
def valueOf? (given : List Given) (switch : Switch) : Option String :=
  (given.reverse.find? (·.1 = switch)).map (·.2)

/-- The first switch that is answered before all others, if there is one. -/
def answeredFirst? (given : List Given) : Option Switch :=
  (given.find? fun g => g.1 = .version || g.1 = .help).map (·.1)

/-! Runs -/

/-- Why a run breaks off. -/
inductive Abort
  | settings (failure : SettingsFailure)
  | sampling (error : SamplingError)
  deriving DecidableEq, Repr

/-- How a run ends. -/
inductive Ending
  | done
  | rejected
  | misused
  | aborted (abort : Abort)
  deriving DecidableEq, Repr

def Ending.exitCode : Ending → Nat
  | .done => 0
  | .rejected => 1
  | .misused => 2
  | .aborted _ => 1

/-- What a run prints, what it records, and how it ends. -/
structure Run where
  output : String := ""
  log : List LogRecord := []
  ending : Ending := .done

/-- The styles of messages. -/
def successStyle : String := "green"

def failureStyle : String := "red"

def versionText : String := "curvefire version 0.3.0"

/-- Lines, each with a line feed at its end. -/
def unlines (lines : List String) : String :=
  String.join (lines.map (· ++ "\n"))

def Run.misused : Run := { ending := .misused }

def Run.version : Run := { output := unlines [versionText] }

/-- The run that is asked for help. It compiles nothing and prints no line of its own. -/
def Run.help : Run := {}

/-- The sources among the switches of a submission; both coordinates are required. -/
def sourcesOf? (given : List Given) : Option Sources := do
  let x ← valueOf? given .x
  let y ← valueOf? given .y
  some { x, y, clause := (valueOf? given .clause).getD "" }

/-- The number of samples that a value asks for. -/
def countOf? (value : String) : Option Nat :=
  Numeral.count? (Text.trim Text.isWhiteSpace value.toList)

def runCheck (given : List Given) : Run :=
  match sourcesOf? given with
  | none => .misused
  | some sources =>
      let s := Submission.submit sources
      match s.outcome with
      | .ok _ => { output := unlines [Console.shownIn successStyle s.status], log := s.log }
      | .error e =>
          let status := Console.shownIn failureStyle s.status
          let lines := if e.place.snippet.isSome then [status, Console.shown e.place.format]
            else [status]
          { output := unlines lines, log := s.log, ending := .rejected }

/-- Prints samples of an accepted submission. -/
def runSamples (settings : Settings) (asJson : Bool) (count : Nat) (c : Curve) : Run :=
  match c.sample count with
  | .error e => { ending := .aborted (.sampling e) }
  | .ok samples =>
      if asJson then { output := unlines (SampleReport.jsonLines samples) }
      else { output := unlines (SampleReport.table c.sources settings samples).lines }

def runSample (settings : Settings) (given : List Given) : Run :=
  match sourcesOf? given, (valueOf? given .samples).map countOf? with
  | none, _ => .misused
  | _, some none => .misused
  | some sources, asked =>
      let s := Submission.submit sources
      match s.outcome with
      | .error _ =>
          { output := unlines [Console.shownIn failureStyle s.status], log := s.log
            ending := .rejected }
      | .ok c =>
          let count := (asked.bind id).getD settings.samples
          let r := runSamples settings (hasSwitch given .json) count c
          { r with log := s.log }

def runCommand (settings : Settings) (command : Command) (words : List String) : Run :=
  match readWords command.forms false words with
  | none => .misused
  | some ⟨given, rest⟩ =>
      if (answeredFirst? given).isSome then .help
      else if !rest.isEmpty then .misused
      else
        match command with
        | .check => runCheck given
        | .sample => runSample settings given
        | .reference => { output := unlines [Console.shown Reference.text] }

/-- The run that ends because there are no settings. -/
def Run.withoutSettings : SettingsFailure → Run
  | .invalid error =>
      { output :=
          if error.isOpenEnded then Console.shownStart error.message
          else unlines [Console.shownIn failureStyle error.message]
        ending := .misused }
  | failure => { ending := .aborted (.settings failure) }

/-- A run of the program. The settings are loaded once the command is known, and before the words
after it are read. -/
def run (words : List String) (folder : Folder) (environment : Settings.Environment) : Run :=
  match readWords globalForms true words with
  | none => .misused
  | some ⟨given, rest⟩ =>
      match answeredFirst? given with
      | some .version => .version
      | some _ => .help
      | none =>
          match rest with
          | [] => .misused
          | name :: words =>
              match Command.ofName? name with
              | none => .misused
              | some command =>
                  let loaded := Settings.load folder (valueOf? given .config) environment
                  let r := match loaded.outcome with
                    | .error failure => Run.withoutSettings failure
                    | .ok settings => runCommand settings command words
                  { r with log := loaded.log ++ r.log }

end FlightCurve.CommandLine

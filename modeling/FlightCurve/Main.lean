import FlightCurve.CommandLine

/-!
The program: it hands the arguments, the environment and the document with the settings to a run,
and prints what the run comes to. Records go to the standard error stream, all of them if the run
is verbose, otherwise only the warnings.
-/

namespace FlightCurve

/-- The working folder, as far as a run looks at it: what stands at the path of the settings. -/
def readFolder (path : String) : IO Folder := do
  let place := FolderPath.ofText path
  try
    return { files := [(place, ← IO.FS.readBinFile path)] }
  catch
    | .noFileOrDirectory .. => return {}
    | _ => return { folders := [place] }

def readEnvironment : IO Settings.Environment :=
  [flightTimeVariable, samplesVariable].filterMapM fun name => do
    return (← IO.getEnv name).map fun value => (name, value)

def isVerbose (given : List CommandLine.Given) : Bool := CommandLine.hasSwitch given .verbose

def printLog (verbose : Bool) (log : List LogRecord) : IO Unit :=
  for record in log do
    if verbose then IO.eprintln (record.level.name ++ ": " ++ record.message)
    else if record.level = .warning then IO.eprintln record.message

/-- What is said of a run that breaks off. -/
def abortMessage : CommandLine.Abort → String
  | .settings failure => failure.message
  | .sampling error => error.message

/-- Runs the program with the given arguments, and returns its exit code. -/
def runProgram (args : List String) : IO UInt32 := do
  let given := ((CommandLine.readWords CommandLine.globalForms true args).map (·.given)).getD []
  let path := (CommandLine.valueOf? given .config).getD settingsFile
  let r := CommandLine.run args (← readFolder path) (← readEnvironment)
  printLog (isVerbose given) r.log
  IO.print r.output
  if let .aborted abort := r.ending then IO.eprintln (abortMessage abort)
  return r.ending.exitCode.toUInt32

end FlightCurve

def main (args : List String) : IO UInt32 := FlightCurve.runProgram args

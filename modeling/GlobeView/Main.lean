/-
# The command

Reads what an invocation draws on, carries it out, and writes what it has to show:
records to the error output, the document to the output.
-/

import GlobeView.CommandLine.Execution
import GlobeView.Document.Log
import Std.Time.DateTime.Timestamp

namespace GlobeView

/-- The file that may set variables. -/
def variablesFile : String :=
  ".env"

/-- The variables that are looked at in any case. -/
def watchedVariables : List String :=
  ["EARTH_CONFIG", "EARTH_USER_AGENT", "TZ"]

/-- The runs of characters of a kind. -/
def runs (p : Char → Bool) (cs : List Char) : List String :=
  ((cs.splitBy fun a b => p a == p b).filter fun run => run.all p).map String.ofList

/-- All names that a file of variables may mention. -/
def mentioned (text : String) : List String :=
  runs (fun c => c.isAlphanum || c == '_' || c == '.') text.toList
    ++ runs isAlphanumeric text.toList

/-- The text of a file, if it can be read. -/
def readText? (name : String) : IO (Option String) := do
  try
    return some (← IO.FS.readFile name)
  catch _ => return none

/-- The environment, with the variables that the file in the working directory sets. -/
def readEnvironment : IO Environment := do
  let text ← readText? variablesFile
  let mut environment : Environment := []
  for name in watchedVariables ++ mentioned (text.getD "") do
    if let some value ← IO.getEnv name then
      environment := (name, value) :: environment
  return match text with
    | some text => environment.withFile text
    | none => environment

/-- The present. -/
def present : IO Moment := do
  let now ← Std.Time.Timestamp.now
  return ⟨now.toSecondsSinceUnixEpoch.val,
    (now.toNanosecondsSinceUnixEpoch.val % 1000000000).toNat, 0⟩

/-- The texts of the files that an invocation names. -/
def readFiles (environment : Environment) (arguments : List String) :
    IO (String → Option String) := do
  match Invocation.ofArguments environment arguments with
  | .ok { settingsFile := some name, .. } =>
    let text ← readText? name
    return fun n => if n = name then text else none
  | _ => return fun _ => none

/-- The page that is shown for help and for arguments that are not understood. -/
def usage : String :=
  "Usage: earth-cli [-c|--config FILE] [--user-agent TEXT] [--log-level LEVEL] [--log-json] "
    ++ "<parse|defaults|wind-scale|sinebow|date|scale>"

/-- Carries out the invocation of the arguments; the result is the exit code. -/
def carryOut (arguments : List String) : IO UInt32 := do
  let environment ← readEnvironment
  let now ← present
  let report := execute {
    trig := .native
    environment := environment
    files := ← readFiles environment arguments
    now := now } arguments
  for record in report.records do
    IO.eprintln <|
      if report.logJson then String.ofList (record.toJson now.utcLabel).compact
      else record.toLine now.utcLabel
  match report.ending with
  | .failed message => IO.eprintln ("Error: " ++ message)
  | .stopped .usage => IO.eprintln usage
  | .stopped .help => IO.println usage
  | .printed _ => IO.print report.ending.output
  return UInt32.ofNat report.ending.code

end GlobeView

/-- The program. -/
def main (arguments : List String) : IO UInt32 :=
  GlobeView.carryOut arguments

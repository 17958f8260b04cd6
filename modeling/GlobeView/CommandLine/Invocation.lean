/-
# Invocations

```text
earth-cli [-c|--config FILE] [--user-agent TEXT] [--log-level LEVEL] [--log-json] COMMAND

parse HASH                                           the configuration of a hash
defaults                                             the configuration without one
wind-scale [--step N] [--max X] [--magnitude X]      the palette for wind
sinebow [--extended] [--samples N] [--alpha X]       the spectrum in steps
date [--at TIMESTAMP]                                the date and hour of a hash
scale NAME VALUE [--alpha X]                         a color of a scale
```

The file and the user agent may also come from the variables `EARTH_CONFIG` and
`EARTH_USER_AGENT`; arguments go first.
-/

import GlobeView.CommandLine.Environment
import GlobeView.CommandLine.Grammar
import GlobeView.Log

namespace GlobeView

/-- What is asked for. -/
inductive Command where
  | parse (hash : String)
  | defaults
  | windScale (step : Nat) (maximum : Float) (magnitude : Option Float)
  | sinebow (extended : Bool) (samples : Nat) (alpha : Float)
  /-- The moment is written as a timestamp; without one it is the present. -/
  | date (timestamp : Option String)
  | scale (name : String) (value alpha : Float)
  deriving DecidableEq

/-- A command and what it is to be carried out with. -/
structure Invocation where
  settingsFile : Option String
  userAgent : String
  logLevel : LogLevel
  logJson : Bool
  command : Command
  deriving DecidableEq

namespace Invocation

open Arguments

/-- A flag of a command. -/
def flag (name : String) : OptionForm :=
  ⟨name, none, none⟩

/-- An option of a command with a value. -/
def valued (name : String) (form : ValueForm) : OptionForm :=
  ⟨name, none, some form⟩

/-- What stands in front of the command. -/
def grammar : Grammar where
  options := [⟨"config", some 'c', some .fileName⟩, valued "user-agent" .text,
    valued "log-level" .text, flag "log-json"]
  operands := []
  commands := ["parse", "defaults", "wind-scale", "sinebow", "date", "scale", "help"]

/-- The text of an option. -/
def text? (g : Given) (name : String) : Option String :=
  (g.value? name).bind Value.text?

/-- The whole number of an option. -/
def natural? (g : Given) (name : String) : Option Nat :=
  (g.value? name).bind Value.natural?

/-- The double of an option. -/
def double? (g : Given) (name : String) : Option Float :=
  (g.value? name).bind Value.double?

/-- The alpha of colors, opaque when none is given. -/
def alpha (g : Given) : Float :=
  (double? g "alpha").getD 255.0

/-- The command of a name and its arguments. -/
def readCommand (name : String) (arguments : List String) : Except Stop Command :=
  match name with
  | "parse" => do
    match (← Grammar.parse ⟨[], [.text], []⟩ arguments).operands with
    | [.text hash] => return .parse hash
    | _ => throw .usage
  | "defaults" => do
    let _ ← Grammar.parse ⟨[], [], []⟩ arguments
    return .defaults
  | "wind-scale" => do
    let options := [valued "step" .natural32, valued "max" .double, valued "magnitude" .double]
    let g ← Grammar.parse ⟨options, [], []⟩ arguments
    return .windScale ((natural? g "step").getD 10) ((double? g "max").getD 100.0)
      (double? g "magnitude")
  | "sinebow" => do
    let options := [flag "extended", valued "samples" .natural64, valued "alpha" .double]
    let g ← Grammar.parse ⟨options, [], []⟩ arguments
    return .sinebow (g.has "extended") ((natural? g "samples").getD 10) (alpha g)
  | "date" => do
    let g ← Grammar.parse ⟨[valued "at" .text], [], []⟩ arguments
    return .date (text? g "at")
  | "scale" => do
    let g ← Grammar.parse ⟨[valued "alpha" .double], [.text, .double], []⟩ arguments
    match g.operands with
    | [.text name, .double value] => return .scale name value (alpha g)
    | _ => throw .usage
  | "help" => match arguments with
    | [] => throw .help
    | [name] => throw (if grammar.commands.contains name then .help else .usage)
    | _ => throw .usage
  | _ => throw .usage

/-- The file of the settings.  A name from the environment may not be empty either,
but it is looked at only when there is nothing wrong with the arguments. -/
def fileName (g : Given) (environment : Environment) : Except Stop (Option String) :=
  match text? g "config", environment.lookup "EARTH_CONFIG" with
  | some name, _ => .ok (some name)
  | none, some name => do return (← orUsage (ValueForm.read .fileName name)).text?
  | none, none => .ok none

/-- The invocation of the arguments after the name of the program. -/
def ofArguments (environment : Environment) (arguments : List String) :
    Except Stop Invocation := do
  let g ← grammar.parse arguments
  let (name, rest) ← orUsage g.command
  let command ← readCommand name rest
  let g ← g.settle
  return {
    settingsFile := ← fileName g environment
    userAgent := ((text? g "user-agent").or (environment.lookup "EARTH_USER_AGENT")).getD ""
    logLevel := .ofName ((text? g "log-level").getD "info")
    logJson := g.has "log-json"
    command := command }

end Invocation
end GlobeView

/-
# Carrying out an invocation

Everything that an invocation draws on is in its `Surroundings`, so that its
`Report`, the records on the way and how it ended, is a function of them.

| ending | exit code | |
| --- | --- | --- |
| `printed` | 0 | a JSON document in the pretty layout, members sorted, and a line end |
| `failed` | 1 | a message |
| `stopped` | 2, for help 0 | arguments that are not understood |
-/

import GlobeView.Calendar.Timestamp
import GlobeView.Calendar.Zone
import GlobeView.CommandLine.Invocation
import GlobeView.CommandLine.Settings
import GlobeView.Color.WindPalette
import GlobeView.Document.Configuration
import GlobeView.Hash.Reader

namespace GlobeView

/-- What an invocation draws on. -/
structure Surroundings where
  trig : Trigonometry
  environment : Environment
  /-- The texts of the files that can be read. -/
  files : String → Option String
  /-- The present. -/
  now : Moment

/-- The seconds by which the local clock runs ahead of UTC, after the variable `TZ`. -/
def Surroundings.zoneOffset (s : Surroundings) : Int :=
  ((s.environment.lookup "TZ").bind Zone.ofText?).getD 0

/-- How an invocation ends. -/
inductive Ending where
  | printed (document : Json)
  | failed (message : String)
  | stopped (reason : Arguments.Stop)

namespace Ending

/-- The exit code. -/
def code : Ending → Nat
  | printed _ => 0
  | failed _ => 1
  | stopped .usage => 2
  | stopped .help => 0

/-- What is written to the output. -/
def output : Ending → String
  | printed document => String.ofList (document.sorted.pretty 0 ++ ['\n'])
  | failed _ => ""
  | stopped _ => ""

end Ending

/-- What an invocation does. -/
structure Report where
  records : List LogRecord
  /-- Whether records are shown as JSON. -/
  logJson : Bool
  ending : Ending

/-- The outcome of a command: what it reports, and a document or a message. -/
structure Outcome where
  records : List LogRecord
  result : Except String Json

namespace Command

/-- A command that reports nothing and cannot fail. -/
def always (document : Json) : Outcome :=
  ⟨[], .ok document⟩

/-- The record of a hash that describes nothing. -/
def unmatched (hash : String) : LogRecord :=
  ⟨.warn, "earth_cli", "Hash does not describe a configuration", [("hash", .text hash)]⟩

/-- A hash without the mark in front of it. -/
def withoutMark (hash : String) : String :=
  match hash.toList with
  | '#' :: cs => String.ofList cs
  | _ => hash

/-- The configuration of a hash, or null. -/
def parseOutcome (reader : HashReader) (hash : String) : Outcome :=
  let hash := withoutMark hash
  let records := reader.records hash
  match reader.read hash with
  | some configuration => ⟨records, .ok configuration.toJson⟩
  | none => ⟨records ++ [unmatched hash], .ok .null⟩

/-- The palette for wind, and the entry of a magnitude. -/
def windOutcome (step : Nat) (maximum : Float) (magnitude : Option Float) : Outcome :=
  match WindPalette.build step maximum with
  | .error fault => ⟨[], .error fault.toFailure.message⟩
  | .ok palette =>
    let styles := ("styles", Json.array (palette.styles.map .text))
    let entry := match magnitude with
      | none => []
      | some m => [("index", Json.integer (palette.indexFor m)),
          ("style", Json.ofOption .text (palette.styleFor m))]
    ⟨[palette.record step], .ok (.object (styles :: entry))⟩

/-- A color and its style. -/
def colorMembers (color : Rgba) : List (String × Json) :=
  [("color", color.toJson), ("style", .text color.toStyle)]

/-- A point of a spectrum and its color. -/
structure Sample where
  point : Float
  color : Rgba
  deriving DecidableEq

/-- The sample as JSON. -/
def Sample.toJson (s : Sample) : Json :=
  .object (("point", .real s.point) :: colorMembers s.color)

/-- The samples at the points that divide `[0, 1]` into a number of parts. -/
def samples (trig : Trigonometry) (extended : Bool) (count : Nat) (alpha : Float) :
    List Sample :=
  let spectrum := if extended then Sinebow.extended trig else Sinebow.color trig
  (Sinebow.points count).map fun point => ⟨point, spectrum point alpha⟩

/-- Date and hour of a moment, for a hash and on two clocks. -/
def dateJson (zoneOffset : Int) (m : Moment) : Json :=
  .object [("config", m.toDateHour.toJson), ("utc", .text m.utcLabel),
    ("local", .text (m.labelAt zoneOffset))]

/-- The date and hour of a timestamp. -/
def dateOutcome (s : Surroundings) : Option String → Outcome
  | none => always (dateJson s.zoneOffset s.now)
  | some timestamp => match Moment.ofTimestamp? timestamp with
    | some m => always (dateJson s.zoneOffset m)
    | none => ⟨[], .error ("Invalid timestamp '" ++ timestamp ++ "'")⟩

/-- The color of a value on a scale. -/
def scaleOutcome (trig : Trigonometry) (scales : ScaleSet) (name : String)
    (value alpha : Float) : Outcome :=
  match scales.build trig name with
  | .error failure => ⟨scales.records name, .error failure.message⟩
  | .ok color =>
    ⟨scales.records name,
      .ok (.object (("value", .real value) :: colorMembers (color value alpha)))⟩

/-- The reader of hashes that settings and a device make. -/
def reader (settings : Settings) (device : Device) : HashReader :=
  .ofNames settings.projections settings.overlays device

/-- The outcome of a command. -/
def run (s : Surroundings) (settings : Settings) (device : Device) : Command → Outcome
  | parse hash => parseOutcome (reader settings device) hash
  | defaults =>
    let r := reader settings device
    ⟨r.initialRecords, .ok r.initial.toJson⟩
  | windScale step maximum magnitude => windOutcome step maximum magnitude
  | sinebow extended count alpha =>
    always (.array ((samples s.trig extended count alpha).map Sample.toJson))
  | date timestamp => dateOutcome s timestamp
  | scale name value alpha => scaleOutcome s.trig settings.scales name value alpha

end Command

namespace Invocation

/-- The settings, or what is wrong with the file that should hold them. -/
def settings (s : Surroundings) : Option String → Except String Settings
  | none => .ok .standard
  | some name => match s.files name with
    | none => .error ("Failed to read config file '" ++ name ++ "'")
    | some text => match Settings.ofYaml? text with
      | some settings => .ok settings
      | none => .error ("Failed to parse config file '" ++ name ++ "'")

/-- The record of settings that were loaded. -/
def loaded (settings : Settings) (device : Device) : LogRecord where
  level := .info
  area := "earth_cli"
  message := "Loaded configuration"
  fields := [("device", .text device.name), ("projections", .count settings.projections.length),
    ("overlays", .count settings.overlays.length), ("scales", .count settings.scales.scales.size)]

/-- How an outcome ends. -/
def ending : Except String Json → Ending
  | .ok document => .printed document
  | .error message => .failed message

/-- The report of an invocation, with the records up to its level. -/
def run (s : Surroundings) (i : Invocation) : Report :=
  match settings s i.settingsFile with
  | .error message => ⟨[], i.logJson, .failed message⟩
  | .ok settings =>
    let device := Device.ofUserAgent i.userAgent
    let outcome := i.command.run s settings device
    let records := loaded settings device :: outcome.records
    ⟨records.filter (·.shownAt i.logLevel), i.logJson, ending outcome.result⟩

end Invocation

/-- The report of the arguments after the name of the program. -/
def execute (s : Surroundings) (arguments : List String) : Report :=
  match Invocation.ofArguments s.environment arguments with
  | .error reason => ⟨[], false, .stopped reason⟩
  | .ok invocation => invocation.run s

end GlobeView

/-
# Log records

What the library has to report about its work is a value, and whoever runs it
decides whether to show it.  A record has a level, the area it comes from, a
message and named fields.
-/

namespace GlobeView

/-- How much a record matters. -/
inductive LogLevel where
  | error
  | warn
  | info
  | debug
  | trace
  deriving DecidableEq, Repr

namespace LogLevel

/-- Levels in the order of growing detail. -/
def detail : LogLevel → Nat
  | error => 0
  | warn => 1
  | info => 2
  | debug => 3
  | trace => 4

/-- The name of a level in a record. -/
def name : LogLevel → String
  | error => "ERROR"
  | warn => "WARN"
  | info => "INFO"
  | debug => "DEBUG"
  | trace => "TRACE"

/-- The level of a name in any case; unknown names mean `info`. -/
def ofName (name : String) : LogLevel :=
  match String.ofList (name.toList.map Char.toLower) with
  | "trace" => trace
  | "debug" => debug
  | "warn" => warn
  | "error" => error
  | _ => info

end LogLevel

/-- The value of a field. -/
inductive LogValue where
  | text (value : String)
  | count (value : Nat)
  | real (value : Float)
  deriving DecidableEq

/-- One record. -/
structure LogRecord where
  level : LogLevel
  area : String
  message : String
  fields : List (String × LogValue)
  deriving DecidableEq

/-- Whether a record is shown when records up to `limit` are. -/
def LogRecord.shownAt (record : LogRecord) (limit : LogLevel) : Bool :=
  record.level.detail ≤ limit.detail

end GlobeView

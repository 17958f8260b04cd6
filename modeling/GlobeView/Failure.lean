/-
# What can go wrong

A `Failure` tells a caller which kind of thing went wrong.  The first two kinds
are the caller's own doing, a violated precondition; the other two come from
documents and files.

| kind | text | precondition |
| --- | --- | --- |
| `invalidParameter` | `Invalid parameter value for '…': …` | yes |
| `invalidScale` | `Invalid color scale: …` | yes |
| `configuration` | `Configuration error: …` | no |
| `internal` | `Internal error: …` | no |

Modules that can fail in a few known ways have a type of their own for the
causes, and say which `Failure` a cause becomes.
-/

namespace GlobeView

/-- A failed operation, by kind. -/
inductive Failure where
  | invalidParameter (parameter message : String)
  | invalidScale (message : String)
  | configuration (message : String)
  | internal (message : String)
  deriving DecidableEq, Repr

namespace Failure

/-- The text shown for a failure. -/
def message : Failure → String
  | invalidParameter parameter message =>
    "Invalid parameter value for '" ++ parameter ++ "': " ++ message
  | invalidScale message => "Invalid color scale: " ++ message
  | configuration message => "Configuration error: " ++ message
  | internal message => "Internal error: " ++ message

/-- Whether the caller broke a documented precondition. -/
def isPrecondition : Failure → Bool
  | invalidParameter .. | invalidScale _ => true
  | configuration _ | internal _ => false

/-- A failed file operation. -/
def ofFile (description : String) : Failure :=
  internal description

/-- A text that is no JSON, or JSON of another shape. -/
def json : Failure :=
  configuration "JSON error"

/-- A text that is no YAML, or YAML of another shape. -/
def yaml : Failure :=
  configuration "YAML error"

end Failure
end GlobeView

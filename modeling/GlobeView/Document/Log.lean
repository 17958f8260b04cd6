/-
# Records in documents

A record is an object of its level, the time, its fields, the message among them,
and the area it comes from.
-/

import GlobeView.Document.Json
import GlobeView.Log

namespace GlobeView

/-- The value of a field as JSON. -/
def LogValue.toJson : LogValue → Json
  | text s => .text s
  | count n => .integer n
  | real x => .real x

namespace LogRecord

/-- The fields of a record, with its message in front. -/
def allFields (r : LogRecord) : List (String × LogValue) :=
  ("message", .text r.message) :: r.fields

/-- The record as JSON, at a time. -/
def toJson (time : String) (r : LogRecord) : Json :=
  .object [("timestamp", .text time), ("level", .text r.level.name),
    ("fields", .object (r.allFields.map fun (name, value) => (name, value.toJson))),
    ("target", .text r.area)]

/-- The record as a line of text, at a time. -/
def toLine (time : String) (r : LogRecord) : String :=
  let field (f : String × LogValue) : String := " " ++ f.1 ++ "="
    ++ String.ofList f.2.toJson.compact
  time ++ " " ++ r.level.name ++ " " ++ r.area ++ ": " ++ r.message
    ++ String.join (r.fields.map field)

end LogRecord
end GlobeView

/-
# Documents as texts

Each type that has a form in documents is read here from the text of a document,
and a text that is none, or a document of another shape, is a `Failure`.  A JSON
document is taken in as long as it is nested 127 times at most; parts that are
passed over do not count.
-/

import GlobeView.Document.Configuration
import GlobeView.Document.Json.Reader
import GlobeView.Document.Yaml.Scale

namespace GlobeView

/-- The deepest nesting of a JSON document. -/
def Json.greatestDepth : Nat :=
  127

/-- What a reader of trees makes of a JSON text. -/
def readJson {α : Type} (read : Tree → Option α) (text : String) : Except Failure α :=
  match (Tree.ofJson? text).bind read with
  | some x => .ok x
  | none => .error .json

namespace ScaleDefinition

/-- The definition of a JSON tree. -/
def ofJsonTree? (t : Tree) : Option ScaleDefinition :=
  if t.readableWithin Json.greatestDepth then ofTree? ScaleTag.ofText? t else none

end ScaleDefinition

namespace ScaleSet

/-- The set of a JSON tree: a record with the scales, which may be left out, or a
list of them. -/
def ofJsonTree? (t : Tree) : Option ScaleSet := do
  match ← t.fields [scalesField] with
  | [some scales] =>
    if scales.readableWithin (Json.greatestDepth - 1) then ofScales? ScaleTag.ofText? scales
    else none
  | _ => some .empty

/-- The set of a JSON text. -/
def ofJson (text : String) : Except Failure ScaleSet :=
  readJson ofJsonTree? text

/-- The set of a YAML text. -/
def ofYaml (text : String) : Except Failure ScaleSet :=
  match ofYaml? text with
  | some set => .ok set
  | none => .error .yaml

/-- What follows the last point of a name, unless the name has no point or begins
with it. -/
def suffix (name : List Char) : Option (List Char) :=
  match (piecesAt '.' name).reverse with
  | last :: stem :: earlier => if stem.isEmpty && earlier.isEmpty then none else some last
  | _ => none

/-- Whether a file is YAML, by its name. -/
def isYamlFile (name : String) : Bool :=
  let fileName := (piecesAt '/' name.toList).getLastD []
  [some "yaml".toList, some "yml".toList].contains (suffix fileName)

/-- The set of a file of a name that was read, or could not be for the reason
given.  The suffix of the name tells the format; all but `yaml` and `yml` are JSON. -/
def ofFile (name : String) (content : Except String ByteArray) : Except Failure ScaleSet := do
  let bytes ← content.mapError Failure.ofFile
  match String.fromUTF8? bytes with
  | none => .error (.ofFile "the file is no text")
  | some text => if isYamlFile name then ofYaml text else ofJson text

end ScaleSet

namespace Configuration

/-- The configuration of a JSON tree. -/
def ofJsonTree? : Tree → Option Configuration :=
  ofTree? (Json.greatestDepth - 1)

end Configuration
end GlobeView

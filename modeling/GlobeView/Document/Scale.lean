/-
# Scales in documents

```json
{"scales": {
  "temp": {"type": "segmented", "units": "K", "segments": [[193, [37, 4, 42]], [328, [88, 27, 67]]]},
  "wind": {"type": "extended_sinebow", "bounds": [0, 100]}
}}
```

The type of a definition is called its tag.  The fields of a definition depend
on its tag and may come in any order; units and bounds may be null or left out.
A definition may also be a list of its tag and its fields in order.

Formats differ in where a tag may be written, so reading takes the tag apart
first: `Tagged` is a tag and what is left of the definition.
-/

import GlobeView.Document.Color
import GlobeView.Scale.Set

namespace GlobeView

namespace Breakpoint

/-- A breakpoint as JSON. -/
def toJson (p : Breakpoint) : Json :=
  .array [.real p.value, p.color.toJson]

/-- The breakpoint of a document. -/
def ofTree? : Tree → Option Breakpoint
  | .list [value, color] => do some ⟨← value.real?, ← Rgb.ofTree? color⟩
  | _ => none

end Breakpoint

namespace Bounds

/-- Bounds as JSON. -/
def toJson (b : Bounds) : Json :=
  .array [.real b.low, .real b.high]

/-- The bounds of a document. -/
def ofTree? : Tree → Option Bounds
  | .list [low, high] => do some ⟨← low.real?, ← high.real?⟩
  | _ => none

end Bounds

/-- The kinds of definitions. -/
inductive ScaleTag where
  | segmented
  | sinebow
  | extendedSinebow
  deriving DecidableEq, Repr

namespace ScaleTag

/-- The tag in a document. -/
def name : ScaleTag → String
  | segmented => "segmented"
  | sinebow => "sinebow"
  | extendedSinebow => "extended_sinebow"

/-- The tag of a name. -/
def ofName? : String → Option ScaleTag
  | "segmented" => some segmented
  | "sinebow" => some sinebow
  | "extended_sinebow" => some extendedSinebow
  | _ => none

/-- The tag of a position among the tags. -/
def ofPosition? : Nat → Option ScaleTag
  | 0 => some segmented
  | 1 => some sinebow
  | 2 => some extendedSinebow
  | _ => none

/-- The tag that a tree names. -/
def ofText? (t : Tree) : Option ScaleTag :=
  t.text?.bind ofName?

/-- The tag that a tree names, or tells by its position. -/
def ofTree? : Tree → Option ScaleTag
  | .natural i => ofPosition? i
  | t => ofText? t

end ScaleTag

namespace ScaleDefinition

/-- The field that holds the tag. -/
def tagField : String :=
  "type"

/-- A tree without its tag. -/
structure Tagged where
  tag : Tree
  body : Tree

/-- The tag of a definition and the rest: the only member of a record under the
name of the tag, or the first item of a list. -/
def tagged? : Tree → Option Tagged
  | .record members => do
    let (tags, rest) := members.partition fun m => m.1 == .text tagField
    some ⟨← (← Tree.atMostOne (tags.map Prod.snd)), .record rest⟩
  | .list (tag :: rest) => some ⟨tag, .list rest⟩
  | _ => none

/-- The bounds of a spectrum. -/
def boundsOf? (body : Tree) : Option (Option Bounds) := do
  match ← body.fields ["bounds"] with
  | [some bounds] => bounds.optional Bounds.ofTree?
  | _ => some none

/-- The definition of a tag and the rest. -/
def ofBody? (tag : ScaleTag) (body : Tree) : Option ScaleDefinition :=
  match tag with
  | .segmented => do
    match ← body.fields ["units", "segments"] with
    | [units, some segments] =>
      some (.segmented (← (units.getD .null).optional Tree.text?)
        (← segments.listOf Breakpoint.ofTree?))
    | _ => none
  | .sinebow => (boundsOf? body).map .sinebow
  | .extendedSinebow => (boundsOf? body).map .extendedSinebow

/-- The definition of a document, the tag of which is told in a given way. -/
def ofTree? (readTag : Tree → Option ScaleTag) (t : Tree) : Option ScaleDefinition := do
  let tagged ← tagged? t
  ofBody? (← readTag tagged.tag) tagged.body

/-- The tag of a definition. -/
def tag : ScaleDefinition → ScaleTag
  | segmented .. => .segmented
  | sinebow _ => .sinebow
  | extendedSinebow _ => .extendedSinebow

/-- The fields of a definition as JSON, in order. -/
def fieldsToJson : ScaleDefinition → List (String × Json)
  | segmented units segments =>
    [("units", .ofOption .text units), ("segments", .array (segments.map Breakpoint.toJson))]
  | sinebow bounds => [("bounds", .ofOption Bounds.toJson bounds)]
  | extendedSinebow bounds => [("bounds", .ofOption Bounds.toJson bounds)]

/-- The definition as JSON. -/
def toJson (d : ScaleDefinition) : Json :=
  .object ((tagField, .text d.tag.name) :: d.fieldsToJson)

end ScaleDefinition

namespace ScaleSet

/-- The field that holds the scales. -/
def scalesField : String :=
  "scales"

/-- The scales of a record of definitions. -/
def ofScales? (readTag : Tree → Option ScaleTag) (t : Tree) : Option ScaleSet :=
  (t.namesOf (ScaleDefinition.ofTree? readTag)).map ScaleSet.mk

/-- The set as JSON. -/
def toJson (set : ScaleSet) : Json :=
  .object [(scalesField,
    .object (set.scales.entries.map fun (name, definition) => (name, definition.toJson)))]

end ScaleSet
end GlobeView

/-
# Configurations in documents

A configuration is a record of its fields and, inlined among them, those of its
selection:

| field | value |
| --- | --- |
| `date`, `hour`, `param`, `surface`, `level` | texts, if there is a selection |
| `projection`, `orientation`, `overlayType`, `topology` | texts |
| `showGridPoints` | a truth value |

There is a selection when each of its fields is there once, as a text; in all
other cases what there is of them is passed over.
-/

import GlobeView.Calendar.Moment
import GlobeView.Device
import GlobeView.Document.Json
import GlobeView.Document.Tree
import GlobeView.Hash.Configuration

namespace GlobeView

namespace DateHour

/-- Date and hour as JSON. -/
def toJson (d : DateHour) : Json :=
  .object [("date", .text d.date), ("hour", .text d.hour)]

/-- The date and hour of a document. -/
def ofTree? (t : Tree) : Option DateHour := do
  match ← t.fields ["date", "hour"] with
  | [some date, some hour] => some ⟨← date.text?, ← hour.text?⟩
  | _ => none

end DateHour

namespace Device

/-- The device of a document: its name, alone or as the only member of a record
in which it is null. -/
def ofTree? : Tree → Option Device
  | .text name => ofName? name
  | .record [(.text name, .null)] => ofName? name
  | _ => none

end Device

namespace Selection

/-- The fields of a selection, in order. -/
def fieldNames : List String :=
  ["date", "hour", "param", "surface", "level"]

/-- The fields of a selection as JSON. -/
def toMembers (s : Selection) : List (String × Json) :=
  [("date", .text s.date), ("hour", .text s.hour), ("param", .text s.param),
    ("surface", .text s.surface), ("level", .text s.level)]

/-- The selection as JSON. -/
def toJson (s : Selection) : Json :=
  .object s.toMembers

/-- The selection of a document. -/
def ofTree? (t : Tree) : Option Selection := do
  match ← t.fields fieldNames with
  | [some date, some hour, some param, some surface, some level] =>
    some ⟨← date.text?, ← hour.text?, ← param.text?, ← surface.text?, ← level.text?⟩
  | _ => none

end Selection

namespace Configuration

/-- The fields of a configuration besides those of its selection, in order. -/
def fieldNames : List String :=
  ["projection", "orientation", "overlayType", "showGridPoints", "topology"]

/-- The configuration as JSON. -/
def toJson (c : Configuration) : Json :=
  .object <|
    (c.selection.map Selection.toMembers).getD [] ++
      [("projection", .text c.projection), ("orientation", .text c.orientation),
        ("overlayType", .text c.overlayType), ("showGridPoints", .bool c.showGridPoints),
        ("topology", .text c.topology)]

/-- Whether a member is none of a configuration's own fields. -/
def isOther (member : Key × Tree) : Bool :=
  match member.1 with
  | .text name => !fieldNames.contains name
  | _ => true

/-- The configuration of a record.  Members besides its own fields are taken in
as they are, before the selection is looked for, so they have to be readable,
nested at most `depth` times. -/
def ofTree? (depth : Nat) : Tree → Option Configuration
  | .record members => do
    let others := members.filter isOther
    if !others.all fun m => m.2.readableWithin depth then none
    match ← (Tree.record members).fields fieldNames with
    | [some projection, some orientation, some overlayType, some showGridPoints, some topology] =>
      some {
        selection := Selection.ofTree? (.record others)
        projection := ← projection.text?
        orientation := ← orientation.text?
        overlayType := ← overlayType.text?
        showGridPoints := ← showGridPoints.bool?
        topology := ← topology.text? }
    | _ => none
  | _ => none

end Configuration
end GlobeView

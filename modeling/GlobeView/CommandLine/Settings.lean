/-
# Settings

Settings name the projections and overlays that a globe knows and hold its
scales.  They are a YAML mapping whose members may all be left out:

```yaml
projections: [orthographic, waterman]
overlays: [wind, temp]
scales:
  wind: {type: extended_sinebow, bounds: [0, 100]}
```

Other members are passed over, but they have to be readable.
-/

import GlobeView.Document.Yaml.Scale

namespace GlobeView

/-- Known names and scales. -/
structure Settings where
  projections : List String
  overlays : List String
  scales : ScaleSet

namespace Settings

/-- The projections that are known without settings. -/
def standardProjections : List String :=
  ["atlantis", "azimuthal_equidistant", "conic_equidistant", "equirectangular", "orthographic",
    "stereographic", "waterman", "winkel3"]

/-- The overlays that are known without settings. -/
def standardOverlays : List String :=
  ["off", "wind", "temp", "relative_humidity", "air_density", "wind_power_density",
    "total_precipitable_water", "total_cloud_water", "mean_sea_level_pressure"]

/-- The settings that hold when there are none. -/
def standard : Settings :=
  ⟨standardProjections, standardOverlays, .empty⟩

open Yaml

/-- The member that lists the projections. -/
def projectionsField : String :=
  "projections"

/-- The member that lists the overlays. -/
def overlaysField : String :=
  "overlays"

/-- The only member of a name, if there is any. -/
def member? (name : String) (members : List (String × Node)) : Option (Option Node) :=
  match members.filter fun m => m.1 == name with
  | [] => some none
  | [(_, node)] => some (some node)
  | _ => none

/-- A list of names, whatever these would be as values. -/
def namesOf? (node : Node) : Option (List String) := do
  (← node.items?).mapM Node.text?

/-- The names that a member lists, or the standard ones without the member. -/
def namesOr (standard : List String) (name : String) (members : List (String × Node)) :
    Option (List String) := do
  match ← member? name members with
  | none => some standard
  | some node => namesOf? node

/-- The scales among the members that list no names.  All these members are taken
in before the scales are looked for. -/
def scalesAmong? (members : List (String × Node)) : Option ScaleSet := do
  let trees := members.map fun m => (m.1, m.2.toTree)
  if !trees.all fun m => m.2.readableWithin greatestDepth then none
  match trees.filter fun m => m.1 == ScaleSet.scalesField with
  | [] => some .empty
  | [(_, scales)] => ScaleSet.ofScales? ScaleTag.ofTree? scales
  | _ => none

/-- The settings of the members of a document. -/
def ofMembers? (members : List (String × Node)) : Option Settings := do
  let listed := [projectionsField, overlaysField]
  some {
    projections := ← namesOr standardProjections projectionsField members
    overlays := ← namesOr standardOverlays overlaysField members
    scales := ← scalesAmong? (members.filter fun m => !listed.contains m.1) }

/-- The settings of a YAML text. -/
def ofYaml? (text : String) : Option Settings :=
  readMembers text fun expand members => do
    let members ← members.mapM fun (name, node) => do return (name, ← expand node)
    ofMembers? members

end Settings
end GlobeView

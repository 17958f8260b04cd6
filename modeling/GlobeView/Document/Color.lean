/-
# Colors in documents

A color with an alpha is a record of `r`, `g`, `b` and `a`, or a list of the
four; a color without alpha is a list of three channels.
-/

import GlobeView.Document.Json
import GlobeView.Document.Tree

namespace GlobeView

namespace Rgb

/-- The color as JSON. -/
def toJson (c : Rgb) : Json :=
  .array [.integer c.red.toInt, .integer c.green.toInt, .integer c.blue.toInt]

/-- The color of a document. -/
def ofTree? : Tree → Option Rgb
  | .list [r, g, b] => do some ⟨← r.channel?, ← g.channel?, ← b.channel?⟩
  | _ => none

end Rgb

namespace Rgba

/-- The fields of a color, in order. -/
def fieldNames : List String :=
  ["r", "g", "b", "a"]

/-- The color as JSON. -/
def toJson (c : Rgba) : Json :=
  .object [("r", .integer c.red.toInt), ("g", .integer c.green.toInt),
    ("b", .integer c.blue.toInt), ("a", .real c.alpha)]

/-- The color of a document. -/
def ofTree? (t : Tree) : Option Rgba := do
  match ← t.fields fieldNames with
  | [some r, some g, some b, some a] =>
    some ⟨← r.channel?, ← g.channel?, ← b.channel?, ← a.real?⟩
  | _ => none

end Rgba
end GlobeView

/-
# Sets of scales in YAML

A set is a mapping; its member `scales` maps names to definitions, and all other
members are passed over.  Names and tags of definitions are the texts of scalars,
whatever these would be as values.
-/

import GlobeView.Document.Scale
import GlobeView.Document.Yaml.Value

namespace GlobeView
namespace Yaml

/-- A node as a tag. -/
def tagTree (node : Node) : Tree :=
  (node.text?.map .text).getD .unreadable

/-- The tree of a definition; its tag is a text. -/
def definitionTree : Node → Tree
  | .mapping p members =>
    if isPrivate p.tag then .unreadable
    else .record <| members.map fun (k, v) =>
      let key := keyOf k.toTree
      (key, if key = .text ScaleDefinition.tagField then tagTree v else v.toTree)
  | .sequence p (tag :: fields) =>
    if isPrivate p.tag then .unreadable
    else .list (tagTree tag :: fields.map Node.toTree)
  | node => node.toTree

/-- The scales of a mapping of definitions. -/
def scalesOf? (node : Node) : Option ScaleSet := do
  let members ← (← node.members?).mapM fun (k, v) => do
    some (Key.text (← k.text?), definitionTree v)
  if members.all fun m => m.2.readableWithin greatestDepth then
    ScaleSet.ofScales? ScaleTag.ofText? (.record members)
  else none

end Yaml

/-- The set of a YAML text. -/
def ScaleSet.ofYaml? (text : String) : Option ScaleSet :=
  Yaml.readMembers text fun expand members => do
    match members.filter fun m => m.1 == scalesField with
    | [] => return .empty
    | [(_, node)] => Yaml.scalesOf? (← expand node)
    | _ => failure

end GlobeView

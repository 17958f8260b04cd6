/-
# Values of YAML scalars

A plain scalar may be a null, a truth value, an integer or a real; every other
scalar is a text, unless its tag says otherwise.

| kind | written |
| --- | --- |
| null | nothing, `~`, `null`, `Null`, `NULL` |
| truth value | `true`, `false`, capitalised or in capitals |
| integer | in decimal without superfluous zeros, or after `0x`, `0o`, `0b`; with a sign |
| real | as a finite decimal; `.inf` with a sign, `.nan`, capitalised or in capitals |

Integers of more than 64 bits have no value as long as they fit in 128; beyond that
they are reals.
-/

import GlobeView.Document.Yaml.Node

namespace GlobeView
namespace Yaml

/-- The words for null. -/
def isNull (text : String) : Bool :=
  ["~", "null", "Null", "NULL"].contains text

/-- The truth value of a word. -/
def bool? (text : String) : Option Bool :=
  if ["true", "True", "TRUE"].contains text then some true
  else if ["false", "False", "FALSE"].contains text then some false
  else none

/-- Whether digits alone have a superfluous zero in front. -/
def hasLeadingZero (cs : List Char) : Bool :=
  let ds := match cs with
    | '-' :: ds => ds
    | '+' :: ds => ds
    | ds => ds
  1 < ds.length && ds.head? == some '0' && ds.all Char.isDigit

/-- The number that digits to a base denote. -/
def inBase (base : Nat) (cs : List Char) : Option Nat := do
  let ds ← cs.mapM JsonToken.hexValue
  if ds.isEmpty ∨ ds.any (base ≤ ·) then none
  else some (ds.foldl (fun n d => base * n + d) 0)

/-- The base that two characters announce. -/
def baseMarks : List (List Char × Nat) :=
  [(['0', 'x'], 16), (['0', 'o'], 8), (['0', 'b'], 2)]

/-- A number without a sign. -/
def magnitude? (cs : List Char) : Option Nat :=
  match baseMarks.find? fun m => m.1.isPrefixOf cs with
  | some (mark, base) => inBase base (cs.drop mark.length)
  | none => if hasLeadingZero cs then none else readNat cs

/-- The tree of an integer with or without a minus, or nothing for one of more than
128 bits. -/
def integerOf? (negative : Bool) (n : Nat) : Option Tree :=
  if negative then
    if n ≤ Nat.pow 2 63 then some (.negative n)
    else if n ≤ Nat.pow 2 127 then some .unreadable
    else none
  else
    if n < Nat.pow 2 64 then some (.natural n)
    else if n < Nat.pow 2 128 then some .unreadable
    else none

/-- The integer of a scalar. -/
def integer? (text : String) : Option Tree :=
  match text.toList with
  | '-' :: cs => (magnitude? cs).bind (integerOf? true)
  | '+' :: cs => (magnitude? cs).bind (integerOf? false)
  | cs => (magnitude? cs).bind (integerOf? false)

/-- The finite double of a decimal. -/
def finite? (text : String) : Option Float :=
  (readDouble text).filter Float.isFinite

/-- The real of a scalar. -/
def real? (text : String) : Option Float :=
  if [".inf", ".Inf", ".INF", "+.inf", "+.Inf", "+.INF"].contains text then some infinity
  else if ["-.inf", "-.Inf", "-.INF"].contains text then some (-infinity)
  else if [".nan", ".NaN", ".NAN"].contains text then some nan
  else finite? text

/-- The value of a scalar that is no text. -/
def number? (text : String) : Option Tree :=
  match integer? text with
  | some t => some t
  | none => if hasLeadingZero text.toList then none else (real? text).map .real

/-- The value of a plain scalar without a tag. -/
def plainTree (text : String) : Tree :=
  if text = "" ∨ isNull text then .null
  else match bool? text with
    | some b => .bool b
    | none => (number? text).getD (.text text)

/-- The value of a scalar. -/
def scalarTree (tag : Option Tag) (plain : Bool) (text : String) : Tree :=
  match tag with
  | none | some .garbled => if plain then plainTree text else .text text
  | some .null => if isNull text then .null else .unreadable
  | some .bool => ((bool? text).map .bool).getD .unreadable
  | some .integer => (integer? text).getD .unreadable
  | some .real => ((real? text).map .real).getD .unreadable
  | some .ofDocument => .unreadable
  | some .other => .text text

/-- Whether a tag is one of those that only the document itself understands. -/
def isPrivate (tag : Option Tag) : Bool :=
  tag == some .ofDocument

/-- A tree as a key. -/
def keyOf : Tree → Key
  | .text name => .text name
  | .natural i => .position i
  | t => if t.readableWithin 128 then .other else .unreadable

namespace Node

mutual

/-- The tree of a node without references. -/
def toTree : Node → Tree
  | scalar p plain text => scalarTree p.tag plain text
  | sequence p items => if isPrivate p.tag then .unreadable else .list (itemTrees items)
  | mapping p members =>
    if isPrivate p.tag then .unreadable else .record (memberTrees members)
  | reference _ => .unreadable

/-- The trees of items. -/
def itemTrees : List Node → List Tree
  | [] => []
  | v :: vs => v.toTree :: itemTrees vs

/-- The trees of members. -/
def memberTrees : List (Node × Node) → List (Key × Tree)
  | [] => []
  | (k, v) :: ms => (keyOf k.toTree, v.toTree) :: memberTrees ms

end

/-- The text of a scalar, whatever its value is. -/
def text? : Node → Option String
  | scalar _ _ text => some text
  | _ => none

/-- Whether there is nothing in place of a node. -/
def isAbsent : Node → Bool
  | scalar _ plain text => plain && text == ""
  | _ => false

/-- The items of a sequence; nothing is an empty one. -/
def items? : Node → Option (List Node)
  | sequence _ items => some items
  | node => if node.isAbsent then some [] else none

/-- The members of a mapping; nothing is an empty one. -/
def members? : Node → Option (List (Node × Node))
  | mapping _ members => some members
  | node => if node.isAbsent then some [] else none

end Node

/-- How often references may still be followed, for every event of a document. -/
def followsPerEvent : Nat :=
  100

/-- The deepest nesting of a document. -/
def greatestDepth : Nat :=
  128

/-- A computation that follows references, as often as is left. -/
abbrev Following :=
  StateT Nat Option

/-- The node that a reference means, the last one of its number. -/
def follow (anchored : List (Nat × Node)) : Node → Following Node
  | .reference number => fun left =>
    match left, anchored.reverse.lookup number with
    | left + 1, some node => some (node, left)
    | _, _ => none
  | node => pure node

/-- The node with the nodes in place of all references to them, unless it is nested
more than `depth` times. -/
def expand (anchored : List (Nat × Node)) : Nat → Node → Following Node
  | 0, node => do
    match ← follow anchored node with
    | .scalar p plain text => pure (.scalar p plain text)
    | _ => failure
  | depth + 1, node => do
    match ← follow anchored node with
    | .sequence p items => return .sequence p (← items.mapM (expand anchored depth))
    | .mapping p members =>
      return .mapping p <| ← members.mapM fun (k, v) => do
        return (← expand anchored depth k, ← expand anchored depth v)
    | node => pure node

/-- What another reader makes of the members of a document, each of them a name and
a node that it may expand; a document that is missing has no members. -/
def readMembers {α : Type} (text : String)
    (read : (Node → Following Node) → List (String × Node) → Following α) : Option α := do
  let root := (← Node.ofText? text).getD .absent
  let expandHere := expand root.anchored (greatestDepth - 1)
  let result : Following α := do
    let members ← (← root.members?).mapM fun (k, v) => do
      return (← (← expandHere k).text?, v)
    read expandHere members
  result.run' (followsPerEvent * root.events)

end Yaml
end GlobeView

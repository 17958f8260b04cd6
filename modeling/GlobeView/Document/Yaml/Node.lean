/-
# Nodes of YAML

A document is a node: a scalar, a sequence, a mapping, or a reference to another
node, which carries the number of that node's anchor.

| tokens | node |
| --- | --- |
| a block, `-` lines, brackets | sequence |
| a block, braces, a key inside brackets | mapping |
| nothing where a value could be | an empty plain scalar |

A text has one document at most; one without any token has none.
-/

import GlobeView.Document.Yaml.Token

namespace GlobeView
namespace Yaml

/-- What may stand in front of a node. -/
structure Properties where
  anchor : Option Nat
  tag : Option Tag
  deriving DecidableEq, Repr

/-- A node of a document. -/
inductive Node where
  | scalar (properties : Properties) (plain : Bool) (text : String)
  | sequence (properties : Properties) (items : List Node)
  | mapping (properties : Properties) (members : List (Node × Node))
  | reference (number : Nat)

namespace Node

/-- What stands where there is nothing. -/
def absent : Node :=
  scalar ⟨none, none⟩ true ""

/-- Anchor and tag in any order, and the rest. -/
def properties : List Token → Properties × List Token
  | .anchor n :: .tag t :: ts => (⟨some n, some t⟩, ts)
  | .tag t :: .anchor n :: ts => (⟨some n, some t⟩, ts)
  | .anchor n :: ts => (⟨some n, none⟩, ts)
  | .tag t :: ts => (⟨none, some t⟩, ts)
  | ts => (⟨none, none⟩, ts)

/-- Whether the first token is one of those given, or there is none. -/
def stopsAt (marks : List Token) : List Token → Bool
  | [] => true
  | t :: _ => marks.contains t

/-- A reader of tokens: what the front stands for, and the rest. -/
abbrev Reader (α : Type) :=
  List Token → Option (α × List Token)

/-- A node, or nothing in front of one of the marks. -/
def orAbsent (marks : List Token) (read : Reader Node) : Reader Node := fun ts =>
  if stopsAt marks ts then some (absent, ts) else read ts

/-- What follows the mark of a value, or nothing if there is no such mark. -/
def valueOr (marks : List Token) (read : Reader Node) : Reader Node
  | .value :: ts => orAbsent marks read ts
  | ts => some (absent, ts)

mutual

/-- A node.  Blocks are nodes only where `block` holds, and entries without
indentation of their own only where `bare` holds.  Here and below every call takes
a step of `fuel`. -/
def read (block bare : Bool) : Nat → Reader Node
  | 0, _ => none
  | _ + 1, .reference n :: ts => some (reference n, ts)
  | fuel + 1, ts =>
    match properties ts with
    | (p, .scalar plain text :: rest) => some (scalar p plain text, rest)
    | (p, .flowSequence :: rest) =>
      (flowItems fuel true rest).map fun (vs, rest) => (sequence p vs, rest)
    | (p, .flowMapping :: rest) =>
      (flowMembers fuel true rest).map fun (ms, rest) => (mapping p ms, rest)
    | (p, rest) =>
      match block, bare, rest with
      | _, true, .blockEntry :: _ =>
        (bareItems fuel rest).map fun (vs, rest) => (sequence p vs, rest)
      | true, _, .blockSequence :: rest =>
        (blockItems fuel rest).map fun (vs, rest) => (sequence p vs, rest)
      | true, _, .blockMapping :: rest =>
        (blockMembers fuel rest).map fun (ms, rest) => (mapping p ms, rest)
      | _, _, _ => if p.anchor.isSome || p.tag.isSome then some (scalar p true "", rest) else none

/-- The entries of a block and its end. -/
def blockItems : Nat → Reader (List Node)
  | fuel + 1, .blockEntry :: ts => do
    let (v, ts) ← orAbsent [.blockEntry, .blockEnd] (read true false fuel) ts
    (blockItems fuel ts).map fun (vs, ts) => (v :: vs, ts)
  | _ + 1, .blockEnd :: ts => some ([], ts)
  | _, _ => none

/-- Entries without indentation of their own. -/
def bareItems : Nat → Reader (List Node)
  | 0, _ => none
  | fuel + 1, .blockEntry :: ts => do
    let (v, ts) ← orAbsent [.blockEntry, .key, .value, .blockEnd] (read true false fuel) ts
    (bareItems fuel ts).map fun (vs, ts) => (v :: vs, ts)
  | _ + 1, ts => some ([], ts)

/-- The members of a block and its end. -/
def blockMembers : Nat → Reader (List (Node × Node))
  | fuel + 1, .key :: ts => do
    let marks := [.key, .value, .blockEnd]
    let (k, ts) ← orAbsent marks (read true true fuel) ts
    let (v, ts) ← valueOr marks (read true true fuel) ts
    (blockMembers fuel ts).map fun (ms, ts) => ((k, v) :: ms, ts)
  | _ + 1, .blockEnd :: ts => some ([], ts)
  | _, _ => none

/-- The items up to a closing bracket; all but the first follow a comma.  A key
among them begins a mapping of one member. -/
def flowItems : Nat → Bool → Reader (List Node)
  | 0, _, _ => none
  | _ + 1, _, .flowSequenceEnd :: ts => some ([], ts)
  | fuel + 1, first, ts => do
    let ts ← if first then some ts else match ts with
      | .flowEntry :: ts => some ts
      | _ => none
    match ts with
    | .flowSequenceEnd :: ts => some ([], ts)
    | .key :: ts => do
      let (member, ts) ← flowPair fuel ts
      (flowItems fuel false ts).map fun (vs, ts) => (mapping ⟨none, none⟩ [member] :: vs, ts)
    | ts => do
      let (v, ts) ← read false false fuel ts
      (flowItems fuel false ts).map fun (vs, ts) => (v :: vs, ts)

/-- A member among items.  A mark in place of its key is passed over. -/
def flowPair : Nat → Reader (Node × Node)
  | 0, _ => none
  | fuel + 1, ts => do
    let (k, ts) ←
      if stopsAt [.value, .flowEntry, .flowSequenceEnd] ts then some (absent, ts.tail)
      else read false false fuel ts
    let (v, ts) ← valueOr [.flowEntry, .flowSequenceEnd] (read false false fuel) ts
    some ((k, v), ts)

/-- The members up to a closing brace; all but the first follow a comma. -/
def flowMembers : Nat → Bool → Reader (List (Node × Node))
  | 0, _, _ => none
  | _ + 1, _, .flowMappingEnd :: ts => some ([], ts)
  | fuel + 1, first, ts => do
    let ts ← if first then some ts else match ts with
      | .flowEntry :: ts => some ts
      | _ => none
    match ts with
    | .flowMappingEnd :: ts => some ([], ts)
    | .key :: ts => do
      let (k, ts) ← orAbsent [.value, .flowEntry, .flowMappingEnd] (read false false fuel) ts
      let (v, ts) ← valueOr [.flowEntry, .flowMappingEnd] (read false false fuel) ts
      (flowMembers fuel false ts).map fun (ms, ts) => ((k, v) :: ms, ts)
    | ts => do
      let (k, ts) ← read false false fuel ts
      (flowMembers fuel false ts).map fun (ms, ts) => ((k, absent) :: ms, ts)

end

mutual

/-- The number of events in which the node is told: the beginning and the end of
a sequence or mapping are two. -/
def events : Node → Nat
  | scalar .. => 1
  | reference _ => 1
  | sequence _ items => 2 + itemEvents items
  | mapping _ members => 2 + memberEvents members

/-- The number of events of items. -/
def itemEvents : List Node → Nat
  | [] => 0
  | v :: vs => v.events + itemEvents vs

/-- The number of events of members. -/
def memberEvents : List (Node × Node) → Nat
  | [] => 0
  | (k, v) :: ms => k.events + v.events + memberEvents ms

end

/-- The anchor of a node. -/
def anchor : Node → Option Nat
  | scalar p .. => p.anchor
  | sequence p _ => p.anchor
  | mapping p _ => p.anchor
  | reference _ => none

/-- The node with its number, if it has an anchor. -/
def own (node : Node) : List (Nat × Node) :=
  (node.anchor.map (·, node)).toList

mutual

/-- The nodes with an anchor and their numbers, in the order they begin in. -/
def anchored : Node → List (Nat × Node)
  | scalar p plain text => (scalar p plain text).own
  | reference _ => []
  | sequence p items => (sequence p items).own ++ anchoredItems items
  | mapping p members => (mapping p members).own ++ anchoredMembers members

/-- The nodes with an anchor among items. -/
def anchoredItems : List Node → List (Nat × Node)
  | [] => []
  | v :: vs => v.anchored ++ anchoredItems vs

/-- The nodes with an anchor among members. -/
def anchoredMembers : List (Node × Node) → List (Nat × Node)
  | [] => []
  | (k, v) :: ms => k.anchored ++ v.anchored ++ anchoredMembers ms

end

/-- The node at the front of a document, which may be missing, and the rest. -/
def ofDocument (fuel : Nat) : Reader Node :=
  orAbsent [.directive, .documentStart, .documentEnd] (read true false fuel)

/-- The node of a list of tokens, of which there has to be one document at most. -/
def ofTokens? (ts : List Token) : Option (Option Node) := do
  let fuel := 2 * ts.length + 2
  match ts with
  | [] => some none
  | .directive :: _ | .documentStart :: _ => do
    match ts.dropWhile (· == .directive) with
    | .documentStart :: ts => finish (← ofDocument fuel ts)
    | _ => none
  | ts => finish (← read true false fuel ts)
where
  /-- The node, if nothing but marks of the end follows. -/
  finish (read : Node × List Token) : Option (Option Node) :=
    if read.2.all (· == .documentEnd) then some (some read.1) else none

/-- The node of a text, if the text has a document. -/
def ofText? (text : String) : Option (Option Node) :=
  (Token.scan text).bind ofTokens?

end Node
end Yaml
end GlobeView

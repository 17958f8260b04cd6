/-
# Trees of documents

A document that was read, in whatever format, is a tree of scalars, lists and
records.  Some scalars are well formed but have no value, such as a number out
of range; they are `unreadable`, and a reader of the document fails on them
where it takes them in, and passes over them where it passes over the member.

A record keeps its members in order, with every repetition.  The functions on
trees below are readers: they return what the tree stands for, or nothing when
it has another shape.

| reader | accepts |
| --- | --- |
| `text?`, `bool?` | texts, truth values |
| `real?` | integers, rounded, and reals |
| `channel?` | integers that fit a channel |
| `optional r` | null, and what `r` accepts |
| `listOf r` | lists of what `r` accepts |
| `fields names` | records, by name, and lists, by position |
-/

import GlobeView.Color.Basic
import GlobeView.Names

namespace GlobeView

/-- The key of a member. -/
inductive Key where
  | text (name : String)
  /-- The position of a field, from zero. -/
  | position (index : Nat)
  | other
  | unreadable
  deriving DecidableEq, Repr

namespace Key

/-- The name that a key consists of. -/
def name? : Key → Option String
  | text name => some name
  | _ => none

/-- Whether the key may tell a field: other keys are no fields at all. -/
def tells : Key → Bool
  | text _ | position _ => true
  | other | unreadable => false

/-- Whether the key tells the field of a name and a position. -/
def isField (name : String) (index : Nat) : Key → Bool
  | text n => n == name
  | position i => i == index
  | other | unreadable => false

end Key

/-- A document that was read. -/
inductive Tree where
  | null
  | bool (value : Bool)
  /-- An integer without a minus. -/
  | natural (value : Nat)
  /-- An integer with a minus, which may be minus zero. -/
  | negative (magnitude : Nat)
  | real (value : Float)
  | text (value : String)
  | unreadable
  | list (items : List Tree)
  | record (members : List (Key × Tree))

namespace Tree

/-- Whether every scalar of the tree has a value, and lists and records are
nested at most `depth` times. -/
def readableWithin : Nat → Tree → Bool
  | _, unreadable => false
  | depth + 1, list items => items.all (readableWithin depth)
  | depth + 1, record members =>
    members.all fun m => m.1 != .unreadable && readableWithin depth m.2
  | 0, list _ => false
  | 0, record _ => false
  | _, _ => true

/-- The text that the tree consists of. -/
def text? : Tree → Option String
  | text s => some s
  | _ => none

/-- The truth value that the tree consists of. -/
def bool? : Tree → Option Bool
  | bool b => some b
  | _ => none

/-- The integer that the tree consists of. -/
def integer? : Tree → Option Int
  | natural n => some n
  | negative n => some (-n)
  | _ => none

/-- The number that the tree consists of, as a double. -/
def real? : Tree → Option Float
  | real x => some x
  | t => t.integer?.map Float.ofInt

/-- The channel that the tree consists of. -/
def channel? (t : Tree) : Option Channel := do
  let i ← t.integer?
  if -2147483648 ≤ i ∧ i ≤ 2147483647 then some (Int32.ofInt i) else none

/-- Null, or what another reader accepts. -/
def optional {α : Type} (read : Tree → Option α) : Tree → Option (Option α)
  | null => some none
  | t => (read t).map some

/-- A list of what another reader accepts. -/
def listOf {α : Type} (read : Tree → Option α) : Tree → Option (List α)
  | list items => items.mapM read
  | _ => none

/-- The only value of those given, if there is any; more than one are refused. -/
def atMostOne : List Tree → Option (Option Tree)
  | [] => some none
  | [t] => some (some t)
  | _ => none

/-- The value of a field of a record, if it has one. -/
def field (members : List (Key × Tree)) (name : String) (index : Nat) : Option (Option Tree) :=
  atMostOne ((members.filter fun m => m.1.isField name index).map Prod.snd)

/-- The values of the named fields, as far as there are any, in the order of the
names.  Members of a record that are none of the fields are passed over, but a
field may not be repeated; a list may not be longer than the names. -/
def fields (names : List String) : Tree → Option (List (Option Tree))
  | record members =>
    if members.all fun m => m.1.tells then
      names.zipIdx.mapM fun (name, index) => field members name index
    else none
  | list items =>
    if items.length ≤ names.length then
      some (items.map some ++ List.replicate (names.length - items.length) none)
    else none
  | _ => none

/-- Names with what another reader accepts; of equal names the last one counts. -/
def namesOf {α : Type} (read : Tree → Option α) : Tree → Option (NameMap α)
  | record members => do
    let entries ← members.mapM fun (key, t) => do
      some (← key.name?, ← read t)
    some (.ofList entries)
  | _ => none

end Tree
end GlobeView

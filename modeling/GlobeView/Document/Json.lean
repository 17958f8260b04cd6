/-
# JSON values and their text

Values are written in two layouts, `compact` without any blanks and `pretty`
with members on lines of their own, two blanks deeper than what they belong to.

| value | text |
| --- | --- |
| a double | the fewest digits that read back, of two equally close ones the even one |
| | positional with at least one place up to sixteen digits and from `0.00001` |
| | `1e+16` and `1.5e-7` beyond |
| an infinity or NaN | `null` |
| a text | quoted; quotes, backslashes and characters below a blank are escaped |

Members are written in the order they stand in.
-/

import GlobeView.Number.Plain
import GlobeView.Names

namespace GlobeView

open Float.Model

/-- A JSON value. -/
inductive Json where
  | null
  | bool (value : Bool)
  | integer (value : Int)
  | real (value : Float)
  | text (value : String)
  | array (items : List Json)
  | object (members : List (String × Json))

namespace Json

/-- An integer in decimal. -/
def integerText (i : Int) : List Char :=
  if i < 0 then '-' :: decimalDigits i.natAbs else decimalDigits i.natAbs

/-- A decimal with a point after its first digit, or none if it has only one. -/
def withPoint : List Char → List Char
  | [] => []
  | [d] => [d]
  | d :: ds => d :: '.' :: ds

/-- A power of ten after the digits, with its sign. -/
def exponentText (e : Int) : List Char :=
  'e' :: (if e < 0 then '-' else '+') :: decimalDigits e.natAbs

/-- The decimal with a point or an exponent in it. -/
def realDigits (d : Decimal) : List Char :=
  let ds := decimalDigits d.digits
  let leading := d.exponent + ds.length - 1
  if leading < -5 ∨ 15 < leading then withPoint ds ++ exponentText leading
  else if 0 ≤ d.exponent then d.positional ++ ['.', '0']
  else d.positional

/-- A double. -/
def realText (x : Float) : List Char :=
  match x.toModel.unpack with
  | .notANumber => "null".toList
  | .infinity _ => "null".toList
  | .zero s => signText s ++ ['0', '.', '0']
  | .finite s m e _ => signText s ++ realDigits (.shortest .even m e)

/-- A hexadecimal digit. -/
def hexDigit (n : Nat) : Char :=
  Nat.digitChar n

/-- One character inside a quoted text. -/
def escaped (c : Char) : List Char :=
  if c = '"' then ['\\', '"']
  else if c = '\\' then ['\\', '\\']
  else if c = '\x08' then ['\\', 'b']
  else if c = '\x0c' then ['\\', 'f']
  else if c = '\n' then ['\\', 'n']
  else if c = '\r' then ['\\', 'r']
  else if c = '\t' then ['\\', 't']
  else if c.toNat < 32 then
    ['\\', 'u', '0', '0', hexDigit (c.toNat / 16), hexDigit (c.toNat % 16)]
  else [c]

/-- A quoted text. -/
def quoted (s : String) : List Char :=
  '"' :: (s.toList.flatMap escaped ++ ['"'])

/-- A value without parts. -/
def scalarText : Json → List Char
  | null => "null".toList
  | bool b => (if b then "true" else "false").toList
  | integer i => integerText i
  | real x => realText x
  | text s => quoted s
  | array _ => []
  | object _ => []

mutual

/-- A value without any blanks. -/
def compact : Json → List Char
  | array items => '[' :: (compactItems items ++ [']'])
  | object members => '{' :: (compactMembers members ++ ['}'])
  | v => v.scalarText

/-- Items with commas between them. -/
def compactItems : List Json → List Char
  | [] => []
  | [v] => v.compact
  | v :: vs => v.compact ++ ',' :: compactItems vs

/-- Members with commas between them. -/
def compactMembers : List (String × Json) → List Char
  | [] => []
  | [(name, v)] => quoted name ++ ':' :: v.compact
  | (name, v) :: ms => quoted name ++ ':' :: v.compact ++ ',' :: compactMembers ms

end

/-- A new line with `depth` steps of two blanks. -/
def newLine (depth : Nat) : List Char :=
  '\n' :: List.replicate (2 * depth) ' '

mutual

/-- A value with its parts on lines of their own; empty ones stay on one. -/
def pretty (depth : Nat) : Json → List Char
  | array [] => ['[', ']']
  | array items => '[' :: (prettyItems (depth + 1) items ++ newLine depth ++ [']'])
  | object [] => ['{', '}']
  | object members => '{' :: (prettyMembers (depth + 1) members ++ newLine depth ++ ['}'])
  | v => v.scalarText

/-- Items, each on a line. -/
def prettyItems (depth : Nat) : List Json → List Char
  | [] => []
  | [v] => newLine depth ++ v.pretty depth
  | v :: vs => newLine depth ++ v.pretty depth ++ ',' :: prettyItems depth vs

/-- Members, each on a line. -/
def prettyMembers (depth : Nat) : List (String × Json) → List Char
  | [] => []
  | [(name, v)] => newLine depth ++ quoted name ++ ':' :: ' ' :: v.pretty depth
  | (name, v) :: ms =>
    newLine depth ++ quoted name ++ ':' :: ' ' :: v.pretty depth ++ ',' :: prettyMembers depth ms

end

/-- Members by name, each name once. -/
def sortMembers (members : List (String × Json)) : List (String × Json) :=
  (NameMap.ofList members).entries

mutual

/-- The value with the members of all its objects in the order of their names;
of equal names the last member counts. -/
def sorted : Json → Json
  | array items => array (sortedItems items)
  | object members => object (sortMembers (sortedMembers members))
  | v => v

/-- Every item sorted. -/
def sortedItems : List Json → List Json
  | [] => []
  | v :: vs => v.sorted :: sortedItems vs

/-- The value of every member sorted. -/
def sortedMembers : List (String × Json) → List (String × Json)
  | [] => []
  | (name, v) :: ms => (name, v.sorted) :: sortedMembers ms

end

/-- An optional value, `null` when there is none. -/
def ofOption {α : Type} (toJson : α → Json) : Option α → Json
  | some x => toJson x
  | none => null

end Json
end GlobeView

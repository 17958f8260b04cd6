/-
# Tokens of JSON

A text is cut into tokens: the six marks and the scalars.  Between them there
may be blanks, tabs and line ends.

A quoted text may hold any character from the blank on, and escapes.  An escape
with four hexadecimal digits stands for a character, or for half of one: a
character beyond the first 65536 is written in two halves, one right after the
other.  A text with half a character alone is well formed but has no value.
-/

import GlobeView.Document.Json.Numeral

namespace GlobeView

/-- A mark or a scalar. -/
inductive JsonToken where
  | openArray
  | closeArray
  | openObject
  | closeObject
  | comma
  | colon
  /-- A quoted text, if it has a value. -/
  | quoted (value : Option String)
  /-- Any other scalar. -/
  | scalar (value : Tree)

namespace JsonToken

/-- A character of a quoted text, or half of one. -/
inductive Piece where
  | char (c : Char)
  | half (code : Nat)
  deriving DecidableEq, Repr

/-- The number that a hexadecimal digit denotes. -/
def hexValue (c : Char) : Option Nat :=
  if c.isDigit then some (c.toNat - '0'.toNat)
  else if 'a' ≤ c ∧ c ≤ 'f' then some (c.toNat - 'a'.toNat + 10)
  else if 'A' ≤ c ∧ c ≤ 'F' then some (c.toNat - 'A'.toNat + 10)
  else none

/-- The number that four hexadecimal digits denote. -/
def fourHexDigits (a b c d : Char) : Option Nat := do
  some ((((← hexValue a) * 16 + (← hexValue b)) * 16 + (← hexValue c)) * 16 + (← hexValue d))

/-- The character of an escape of one letter. -/
def escapedChar : Char → Option Char
  | '"' => some '"'
  | '\\' => some '\\'
  | '/' => some '/'
  | 'b' => some '\x08'
  | 'f' => some '\x0c'
  | 'n' => some '\n'
  | 'r' => some '\r'
  | 't' => some '\t'
  | _ => none

/-- What an escape of a code stands for. -/
def Piece.ofCode (code : Nat) : Piece :=
  if 0xd800 ≤ code ∧ code < 0xe000 then half code else char (Char.ofNat code)

/-- The pieces up to the closing quote, and what follows it. -/
def pieces : List Char → Option (List Piece × List Char)
  | '"' :: cs => some ([], cs)
  | '\\' :: 'u' :: a :: b :: c :: d :: cs => do
    let code ← fourHexDigits a b c d
    let (ps, rest) ← pieces cs
    some (.ofCode code :: ps, rest)
  | '\\' :: c :: cs => do
    let c ← escapedChar c
    let (ps, rest) ← pieces cs
    some (.char c :: ps, rest)
  | c :: cs => do
    guard (32 ≤ c.toNat)
    let (ps, rest) ← pieces cs
    some (.char c :: ps, rest)
  | [] => none

/-- The character of two halves. -/
def ofHalves (high low : Nat) : Char :=
  Char.ofNat (0x10000 + (high - 0xd800) * 0x400 + (low - 0xdc00))

/-- The text of the pieces, unless half a character is alone. -/
def join : List Piece → Option (List Char)
  | [] => some []
  | .char c :: ps => (join ps).map (c :: ·)
  | .half high :: .half low :: ps =>
    if high < 0xdc00 ∧ 0xdc00 ≤ low then (join ps).map (ofHalves high low :: ·) else none
  | .half _ :: _ => none

/-- A quoted text after its opening quote, and the rest. -/
def quotedText (cs : List Char) : Option (JsonToken × List Char) :=
  (pieces cs).map fun (ps, cs) => (quoted ((join ps).map String.ofList), cs)

/-- The words that are scalars. -/
def words : List (String × Tree) :=
  [("null", .null), ("true", .bool true), ("false", .bool false)]

/-- A scalar without quotes, and the rest. -/
def bare (cs : List Char) : Option (JsonToken × List Char) :=
  match words.find? fun w => w.1.toList.isPrefixOf cs with
  | some (word, value) => some (scalar value, cs.drop word.length)
  | none => (JsonNumber.written cs).map fun (w, cs) => (scalar w.toTree, cs)

/-- The token at the front of a text, and the rest. -/
def first : List Char → Option (JsonToken × List Char)
  | '[' :: cs => some (openArray, cs)
  | ']' :: cs => some (closeArray, cs)
  | '{' :: cs => some (openObject, cs)
  | '}' :: cs => some (closeObject, cs)
  | ',' :: cs => some (comma, cs)
  | ':' :: cs => some (colon, cs)
  | '"' :: cs => quotedText cs
  | cs => bare cs

/-- Characters that may stand between tokens. -/
def isBlank (c : Char) : Bool :=
  c == ' ' || c == '\n' || c == '\t' || c == '\r'

/-- The tokens of a text; each takes one step of `fuel`. -/
def scan : Nat → List Char → Option (List JsonToken)
  | fuel, cs =>
    match fuel, cs.dropWhile isBlank with
    | _, [] => some []
    | 0, _ => none
    | fuel + 1, cs => do
      let (t, cs) ← first cs
      (scan fuel cs).map (t :: ·)

end JsonToken
end GlobeView

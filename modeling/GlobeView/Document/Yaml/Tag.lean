/-
# Tags

A tag in front of a value says what the value is.  It is written as `!name`,
with a handle as in `!!int`, or in full as `!<…>`; a handle stands for the
beginning of the full tag, and directives may give it another one.

A tag is a string of bytes that ends in front of its first zero, for escapes can
write any bytes that have the outline of characters.  Few tags matter: those of the
four kinds of scalars, and the tags that begin with an exclamation mark, which are
private to a document.
-/

import GlobeView.Document.Yaml.Scalar

namespace GlobeView
namespace Yaml

/-- What a tag says. -/
inductive Tag where
  | null
  | bool
  | integer
  | real
  /-- A text that begins with an exclamation mark. -/
  | ofDocument
  /-- Bytes that begin with an exclamation mark and are no text. -/
  | garbled
  | other
  deriving DecidableEq, Repr

namespace Tag

/-- The beginning of the tags that all documents share. -/
def shared : String :=
  "tag:yaml.org,2002:"

/-- The tag of a text. -/
def ofText (text : String) : Tag :=
  if text = shared ++ "null" then null
  else if text = shared ++ "bool" then bool
  else if text = shared ++ "int" then integer
  else if text = shared ++ "float" then real
  else if text.toList.head? = some '!' then ofDocument
  else other

/-- The tag written in full. -/
def ofBytes (bytes : List UInt8) : Tag :=
  match String.fromUTF8? bytes.toByteArray with
  | some text => ofText text
  | none => if bytes.head? = some '!'.toUInt8 then garbled else other

/-- Bytes up to the first zero. -/
def toZero (bytes : List UInt8) : List UInt8 :=
  bytes.takeWhile (· != 0)

/-- Handles and what they stand for, the ones given last in front. -/
abbrev Handles :=
  List (String × List UInt8)

/-- The handles that every document has. -/
def Handles.standard : Handles :=
  [("!", "!".toUTF8.toList), ("!!", shared.toUTF8.toList)]

/-- Characters of a tag; a few more are allowed where it is written in full. -/
def isTagChar (full : Bool) (c : Char) : Bool :=
  isNameChar c || ";/?:@&=+$.!~*'()%".contains c || (full && ",[]".contains c)

/-- One escaped byte, and the rest. -/
def escapedByte : List Placed → Option (UInt8 × List Placed)
  | a :: b :: c :: cs =>
    if a.char = '%' then do
      let high ← JsonToken.hexValue b.char
      let low ← JsonToken.hexValue c.char
      some ((16 * high + low).toUInt8, cs)
    else none
  | _ => none

/-- The number of bytes that belong to a character behind its first byte. -/
def following? (first : UInt8) : Option Nat :=
  if first < 0x80 then some 0
  else if first / 0x20 = 0x6 then some 1
  else if first / 0x10 = 0xe then some 2
  else if first / 0x08 = 0x1e then some 3
  else none

/-- The remaining bytes of an escaped character, and the rest. -/
def followingBytes : Nat → List Placed → Option (List UInt8 × List Placed)
  | 0, cs => some ([], cs)
  | n + 1, cs => do
    let (b, cs) ← escapedByte cs
    if b / 0x40 = 0x2 then (followingBytes n cs).map fun (bs, cs) => (b :: bs, cs) else none

/-- The bytes of an escaped character, and the rest.  The bytes have the outline of
a character, but there may be no character of that code. -/
def escapedBytes (cs : List Placed) : Option (List UInt8 × List Placed) := do
  let (b, cs) ← escapedByte cs
  (followingBytes (← following? b) cs).map fun (bs, cs) => (b :: bs, cs)

/-- The bytes of a tag, escapes resolved, and the rest. -/
def content (full : Bool) : Nat → List Placed → Option (List UInt8 × List Placed)
  | fuel + 1, c :: cs =>
    if !isTagChar full c.char then some ([], c :: cs)
    else if c.char = '%' then do
      let (bs, cs) ← escapedBytes (c :: cs)
      (content full fuel cs).map fun (t, cs) => (bs ++ t, cs)
    else (content full fuel cs).map fun (t, cs) => (c.char.toUInt8 :: t, cs)
  | _, cs => some ([], cs)

/-- The bytes of a tag, of which there has to be one, up to the first zero, and the
rest. -/
def someContent (full : Bool) (cs : List Placed) : Option (List UInt8 × List Placed) :=
  (content full cs.length cs).bind fun (t, cs) =>
    if t.isEmpty then none else some (toZero t, cs)

/-- A handle in front of its last exclamation mark, whether that mark is there, and
the rest. -/
def handle (cs : List Placed) : List Char × Bool × List Placed :=
  let (name, rest) := spanChars isNameChar cs.tail
  if head? rest = some '!' then ('!' :: chars name, true, rest.tail)
  else ('!' :: chars name, false, rest)

/-- The bytes of a tag that begins here, and the rest.  The exclamation mark alone is
a tag, whatever its handle stands for. -/
def written (handles : Handles) (cs : List Placed) : Option (List UInt8 × List Placed) :=
  if head? cs.tail = some '<' then do
    let (t, cs) ← someContent true (cs.drop 2)
    if head? cs = some '>' then some (t, cs.tail) else none
  else match handle cs with
    | (name, true, rest) => do
      let (t, rest) ← someContent false rest
      some ((← handles.lookup (String.ofList name ++ "!")) ++ t, rest)
    | (name, false, rest) => do
      let (t, rest) ← content false rest.length rest
      match toZero (name.tail.map Char.toUInt8 ++ t) with
      | [] => some (['!'.toUInt8], rest)
      | t => some ((← handles.lookup "!") ++ t, rest)

/-- The tag that begins here, and the rest. -/
def read (flow : Bool) (handles : Handles) (cs : List Placed) : Option (Tag × List Placed) := do
  let (t, cs) ← written handles cs
  if atGap cs || (flow && head? cs == some ',') then some (ofBytes t, cs) else none

end Tag
end Yaml
end GlobeView

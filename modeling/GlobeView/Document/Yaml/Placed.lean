/-
# Characters and where they stand

Where a character stands decides what it means: indentation is a column, a key
has to end on its line and within 1024 bytes.  `place` gives every character its
offset, line and column, and turns the ways of ending a line into one; the
separators of lines and of paragraphs end lines too and stay as they are.
-/

import GlobeView.Text.Ranges

namespace GlobeView
namespace Yaml

/-- A character, its line, its column, and the bytes of the text before it. -/
structure Placed where
  char : Char
  offset : Nat
  line : Nat
  column : Nat
  deriving DecidableEq, Repr

/-- Blanks and tabs. -/
def isBlank (c : Char) : Bool :=
  c == ' ' || c == '\t'

/-- Characters that end a line, after `place`. -/
def isBreak (c : Char) : Bool :=
  c == '\n' || c == '\u2028' || c == '\u2029'

/-- Characters between words. -/
def isGap (c : Char) : Bool :=
  isBlank c || isBreak c

/-- Letters, digits, underscores and hyphens: the characters of names. -/
def isNameChar (c : Char) : Bool :=
  c.isAlphanum || c == '_' || c == '-'

/-- The ranges of characters that may stand in a document. -/
def allowed : Ranges :=
  [(0x9, 0xa), (0xd, 0xd), (0x20, 0x7e), (0x85, 0x85), (0xa0, 0xfffd), (0x10000, 0x10ffff)]

/-- Characters that may stand in a document at all. -/
def isAllowed (c : Char) : Bool :=
  allowed.contains c

/-- The characters of a text with their places; the first one is at the given
offset, line and column. -/
def placeFrom (offset line column : Nat) : List Char → List Placed
  | [] => []
  | '\r' :: '\n' :: cs => ⟨'\n', offset, line, column⟩ :: placeFrom (offset + 2) (line + 1) 0 cs
  | c :: cs =>
    let d := if c = '\r' ∨ c = '\x85' then '\n' else c
    ⟨d, offset, line, column⟩ ::
      if isBreak d then placeFrom (offset + c.utf8Size) (line + 1) 0 cs
      else placeFrom (offset + c.utf8Size) line (column + 1) cs

/-- The characters of a document with their places, unless one is not allowed. -/
def place (cs : List Char) : Option (List Placed) :=
  if cs.all isAllowed then some (placeFrom 0 0 0 cs) else none

/-- The longest front of characters of a kind, and the rest. -/
def spanChars (p : Char → Bool) (cs : List Placed) : List Placed × List Placed :=
  cs.span fun c => p c.char

/-- The characters without their places. -/
def chars (cs : List Placed) : List Char :=
  cs.map Placed.char

/-- The first character. -/
def head? (cs : List Placed) : Option Char :=
  cs.head?.map Placed.char

/-- Whether a text is at its end or begins with a character between words. -/
def atGap (cs : List Placed) : Bool :=
  (head? cs).all isGap

/-- Whether a text is at the end of a line. -/
def atLineEnd (cs : List Placed) : Bool :=
  (head? cs).all isBreak

/-- Whether a text begins with three marks alone in the first column. -/
def atTriple (mark : Char) : List Placed → Bool
  | a :: b :: c :: rest =>
    a.column == 0 && a.char == mark && b.char == mark && c.char == mark && atGap rest
  | _ => false

/-- Whether a document begins or ends here. -/
def atDocumentMark (cs : List Placed) : Bool :=
  atTriple '-' cs || atTriple '.' cs

/-- The text after blanks and a comment, which has to be the end of the line. -/
def toLineEnd (cs : List Placed) : Option (List Placed) :=
  let (_, cs) := spanChars isBlank cs
  let cs := if head? cs = some '#' then (spanChars (!isBreak ·) cs).2 else cs
  if atLineEnd cs then some cs else none

end Yaml
end GlobeView

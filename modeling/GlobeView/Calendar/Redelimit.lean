/-
# Dates under other delimiters

`redelimit` takes a text made of a year, a month and a day and puts another
delimiter between the three.  Without a delimiter of its own the text is read
by position, four bytes and twice two; with one, the first ten characters are
split at it.  What is missing is empty.
-/

import GlobeView.Text.Pieces

namespace GlobeView

/-- What is left of a text without its first `n` bytes, unless those end inside
a character. -/
def dropBytes : Nat → List Char → Option (List Char)
  | 0, cs => some cs
  | _ + 1, [] => none
  | n + 1, c :: cs => if c.utf8Size ≤ n + 1 then dropBytes (n + 1 - c.utf8Size) cs else none
termination_by _ cs => cs.length

/-- The first `n` bytes of a text, unless they end inside a character. -/
def takeBytes : Nat → List Char → Option (List Char)
  | 0, _ => some []
  | _ + 1, [] => none
  | n + 1, c :: cs =>
    if c.utf8Size ≤ n + 1 then (takeBytes (n + 1 - c.utf8Size) cs).map (c :: ·) else none
termination_by _ cs => cs.length

/-- The number of bytes of a text. -/
def byteCount (cs : List Char) : Nat :=
  cs.foldr (fun c n => c.utf8Size + n) 0

/-- The bytes of a text from `start` up to `stop` or its end; empty where there
are none, or where an end lies inside a character. -/
def bytePart (cs : List Char) (start stop : Nat) : List Char :=
  let stop := min stop (byteCount cs)
  if stop < start then []
  else ((dropBytes start cs).bind (takeBytes (stop - start))).getD []

/-- The first three pieces, empty ones for those that are missing. -/
def firstThree (pieces : List (List Char)) : List (List Char) :=
  [pieces.getD 0 [], pieces.getD 1 [], pieces.getD 2 []]

/-- Year, month and day of a text under a delimiter. -/
def dateParts (text fromDelimiter : List Char) : List (List Char) :=
  if fromDelimiter.isEmpty then [bytePart text 0 4, bytePart text 4 6, bytePart text 6 8]
  else firstThree (piecesAtText fromDelimiter (text.take 10))

/-- The year, month and day of a text under another delimiter. -/
def redelimit (text fromDelimiter toDelimiter : List Char) : List Char :=
  toDelimiter.intercalate (dateParts text fromDelimiter)

end GlobeView

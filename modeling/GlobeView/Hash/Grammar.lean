/-
# The grammar of hashes

```text
hash      := date-part "/" param "/" surface "/" level ("/" option)*
date-part := "current" | yyyy "/" m "/" d "/" hhh "Z"
```

The date part has four digits for the year, one or two for month and day, and
three or four for the hour; they are padded to four, two, two and four.  The
parameter, the surface and the level are words.  What follows the level counts
only if it starts with a slash, and only up to the end of the line.
-/

import GlobeView.Hash.Configuration
import GlobeView.Hash.Option
import GlobeView.Number.Reading
import GlobeView.Number.Plain
import GlobeView.Text.Pieces

namespace GlobeView
namespace HashGrammar

/-- Characters that end a line. -/
def isLineEnd (c : Char) : Bool :=
  c == '\n' || c == '\r' || c == '\u2028' || c == '\u2029'

/-- Between `least` and `most` digits, as many as there are, and the rest. -/
def digits (least most : Nat) (cs : List Char) : Option (List Char × List Char) :=
  let ds := (cs.take most).takeWhile Char.isDigit
  if ds.length < least then none else some (ds, cs.drop ds.length)

/-- The longest word at the front, and the rest. -/
def word (cs : List Char) : Option (List Char × List Char) :=
  let (name, rest) := cs.span isWordChar
  if name.isEmpty then none else some (name, rest)

/-- The number that the digits denote, if it has at most 32 bits. -/
def number? (ds : List Char) : Option Nat :=
  (readNat ds).filter (· ≤ 4294967295)

/-- The number that the digits denote, or zero where there is none, written with
`width` digits. -/
def pad (width : Nat) (ds : List Char) : List Char :=
  paddedDigits width ((number? ds).getD 0)

/-- The date and the hour of a date part, and the rest. -/
def datePart (cs : List Char) : Option ((List Char × List Char) × List Char) :=
  match afterLiteral currentDate.toList cs with
  | some rest => some ((currentDate.toList, []), rest)
  | none => do
    let (year, cs) ← digits 4 4 cs
    let cs ← afterLiteral ['/'] cs
    let (month, cs) ← digits 1 2 cs
    let cs ← afterLiteral ['/'] cs
    let (day, cs) ← digits 1 2 cs
    let cs ← afterLiteral ['/'] cs
    let (hour, cs) ← digits 3 4 cs
    let cs ← afterLiteral ['Z'] cs
    some ((year ++ '/' :: (pad 2 month ++ '/' :: pad 2 day), pad 4 hour), cs)

/-- The selection at the front of a hash, and what follows the level. -/
def selection (cs : List Char) : Option (Selection × List Char) := do
  let ((date, hour), cs) ← datePart cs
  let cs ← afterLiteral ['/'] cs
  let (param, cs) ← word cs
  let cs ← afterLiteral ['/'] cs
  let (surface, cs) ← word cs
  let cs ← afterLiteral ['/'] cs
  let (level, cs) ← word cs
  some (⟨String.ofList date, String.ofList hour, String.ofList param, String.ofList surface,
    String.ofList level⟩, cs)

/-- The options after the level: what follows a slash, up to the end of the
line, cut at slashes. -/
def segments (rest : List Char) : List (List Char) :=
  match afterLiteral ['/'] rest with
  | none => []
  | some cs =>
    let line := cs.takeWhile fun c => !isLineEnd c
    if line.isEmpty then [] else piecesAt '/' line

end HashGrammar
end GlobeView

/-
# Zones of a fixed offset

A zone is written as a name and the time to add to its clock to get UTC, as in
`EST5` or `<+0530>-5:30`: west is positive.  `Zone.ofText?` returns the seconds
by which the clock runs ahead of UTC, which is less than a day either way.
-/

import GlobeView.Number.Reading
import GlobeView.Text.Pieces

namespace GlobeView
namespace Zone

/-- Whether a character is blank at the ends of a zone. -/
def isBlank (c : Char) : Bool :=
  [' ', '\t', '\n', '\x0c', '\r'].contains c

/-- Whether a text is the name of a zone. -/
def isName (cs : List Char) : Bool :=
  3 ≤ cs.length && cs.length ≤ 7 && cs.all fun c => c.isAlphanum || c == '+' || c == '-'

/-- The name of a zone, letters or a text in angle brackets, and what follows it. -/
def splitName : List Char → Option (List Char × List Char)
  | '<' :: cs => match atFirst '>' cs with
    | (name, some rest) => some (name, rest)
    | (_, none) => none
  | cs => some (cs.span Char.isAlpha)

/-- Hours, minutes and seconds, the last two of which may be left out. -/
def duration (cs : List Char) : Option Int := do
  let (h, m, s) ← match ← (piecesAt ':' cs).mapM readNat with
    | [h] => some (h, 0, 0)
    | [h, m] => some (h, m, 0)
    | [h, m, s] => some (h, m, s)
    | _ => none
  if h < 24 ∧ m < 60 ∧ s < 60 then some (h * 3600 + m * 60 + s : Nat) else none

/-- The seconds by which the zone's clock runs ahead of UTC. -/
def ofText? (text : String) : Option Int := do
  let cs := text.toList.dropWhile isBlank
  let (name, rest) ← splitName (cs.reverse.dropWhile isBlank).reverse
  let west ← readSigned Neg.neg duration rest
  if isName name then some (-west) else none

end Zone
end GlobeView

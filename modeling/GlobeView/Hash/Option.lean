/-
# Options of a hash

After the selection a hash may carry options, separated by slashes:

| option | form |
| --- | --- |
| a projection | `name` or `name=orientation`, the orientation of digits, points, commas and hyphens |
| an overlay | `overlay=name` |
| the grid | `grid=name` |

Names are words: letters, digits and underscores.  The forms are tried in this
order, so `overlay=123` is a projection.  What matches none is unrecognized.
-/

import GlobeView.Text.Pieces

namespace GlobeView

/-- The characters of words. -/
def isWordChar (c : Char) : Bool :=
  c.isAlphanum || c == '_'

/-- Whether a text is a word, with a character at least. -/
def isWord (cs : List Char) : Bool :=
  !cs.isEmpty && cs.all isWordChar

/-- The characters of orientations. -/
def isOrientationChar (c : Char) : Bool :=
  c.isDigit || c == '-' || c == '.' || c == ','

/-- The rest of a text that starts with `literal`. -/
def afterLiteral (literal cs : List Char) : Option (List Char) :=
  if literal.isPrefixOf cs then some (cs.drop literal.length) else none

/-- One option. -/
inductive HashOption where
  | projection (name : String) (orientation : Option String)
  | overlay (name : String)
  | grid (name : String)
  | unrecognized
  deriving DecidableEq, Repr

namespace HashOption

/-- The option that is a projection by its form. -/
def projection? (cs : List Char) : Option HashOption :=
  let (name, value) := atFirst '=' cs
  if isWord name && value.all (·.all isOrientationChar) then
    some (.projection (String.ofList name) (value.map String.ofList))
  else none

/-- The word after a literal. -/
def wordAfter (literal cs : List Char) : Option String :=
  (afterLiteral literal cs).bind fun word =>
    if isWord word then some (String.ofList word) else none

/-- The option that a segment of the hash stands for. -/
def classify (cs : List Char) : HashOption :=
  ((projection? cs).or
    (((wordAfter "overlay=".toList cs).map overlay).or
      ((wordAfter "grid=".toList cs).map grid))).getD unrecognized

end HashOption
end GlobeView

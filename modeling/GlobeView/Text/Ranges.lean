/-
# Ranges of characters

A kind of characters is given by the ranges of code points that belong to it, each of
them by its first and its last one.
-/

namespace GlobeView

/-- The first and the last code point of every range. -/
abbrev Ranges :=
  List (Nat × Nat)

namespace Ranges

/-- Whether a character lies in one of the ranges. -/
def contains (ranges : Ranges) (c : Char) : Bool :=
  ranges.any fun (first, last) => first ≤ c.toNat && c.toNat ≤ last

end Ranges
end GlobeView

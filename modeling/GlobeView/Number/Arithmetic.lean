/-
# Arithmetic of samples

Wrapping, clamping and normalising of double samples.  All operations are the
double ones, applied in the order written, so results are rounded where the
formulas round.
-/

import GlobeView.Number.Exact

namespace GlobeView

open Exact

/-- A point of the screen. -/
structure Point where
  x : Float
  y : Float

/-- Euclidean distance. -/
def Point.distance (a b : Point) : Float :=
  let dx := b.x - a.x
  let dy := b.y - a.y
  (dx * dx + dy * dy).sqrt

/-- The remainder of floored division, `a - n ⌊a / n⌋`, which takes the sign of
`n`.  When rounding carries the difference up to `n` itself the remainder is 0. -/
def floorMod (a n : Float) : Float :=
  let f := a - n * floor (a / n)
  if f == n then 0.0 else f

/-- `x` moved into `[low, high]`; when the bounds are crossed `low` wins. -/
def clamp (x low high : Float) : Float :=
  maximum low (minimum x high)

/-- The fraction of `[low, high]` that lies below `x`, after clamping `x` to it. -/
def proportion (x low high : Float) : Float :=
  (clamp x low high - low) / (high - low)

/-- The point at fraction `p` of `[low, high]`. -/
def spread (p low high : Float) : Float :=
  p * (high - low) + low

end GlobeView

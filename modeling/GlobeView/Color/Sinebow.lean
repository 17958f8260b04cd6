/-
# The sinebow

A spectrum that follows a trefoil through color space.  Hue 0 and hue 1 are
distinct colors: the hue is mapped to five sixths of a turn, and the angle then
slowed to three quarters.

`extended` runs through the whole spectrum up to `boundary` and from there
fades to white, which it reaches at 1.

The sine, cosine and arc tangent come from a `Trigonometry`, so that a law
about the colors can name what it needs of them.
-/

import GlobeView.Color.Ramp

namespace GlobeView

/-- The functions of angles that the library draws on. -/
structure Trigonometry where
  sin : Float → Float
  cos : Float → Float
  /-- The angle of the point with ordinate `y` and abscissa `x`. -/
  atan2 : (y x : Float) → Float

/-- The functions of the machine. -/
def Trigonometry.native : Trigonometry :=
  ⟨Float.sin, Float.cos, Float.atan2⟩

/-- A full turn in radians. -/
def fullTurn : Float :=
  6.283185307179586

namespace Sinebow

/-- Where the extended spectrum turns to fading. -/
def boundary : Float :=
  0.45

/-- White, where the fading ends. -/
def white : Rgb :=
  ⟨255, 255, 255⟩

/-- A channel from a sine or cosine. -/
def channel (x : Float) : Channel :=
  Channel.ofFloor (x * 255.0)

/-- The spectrum, for hues in `[0, 1]`. -/
def color (trig : Trigonometry) (hue alpha : Float) : Rgba :=
  let angle := hue * fullTurn * 5.0 / 6.0 * 0.75
  let s := trig.sin angle
  let c := trig.cos angle
  { red := channel (Exact.maximum (-c) 0.0)
    green := channel (Exact.maximum s 0.0)
    blue := channel (Exact.maximum (Exact.maximum c 0.0) (-s))
    alpha := alpha }

/-- The spectrum up to `boundary`, then a fade to white. -/
def extended (trig : Trigonometry) (i alpha : Float) : Rgba :=
  if i ≤ boundary then
    color trig (i / boundary) alpha
  else
    let last := (color trig 1.0 0.0).rgb
    Ramp.color ⟨last, white⟩ ((i - boundary) / (1.0 - boundary)) alpha

/-- The points that divide `[0, 1]` into `n` parts, ends included; at least into one. -/
def points (n : Nat) : List Float :=
  let n := max n 1
  (List.range (n + 1)).map fun i => Float.ofNat i / Float.ofNat n

end Sinebow
end GlobeView

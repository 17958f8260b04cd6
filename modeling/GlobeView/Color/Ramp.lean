/-
# Ramps

A ramp runs linearly, channel by channel, from one color at 0 to another at 1.
Positions outside `[0, 1]` extrapolate.

The difference of two channels is taken when the ramp is made, in the 32 bits of a
channel and before it becomes a double.  What becomes of a difference that 32 bits
do not hold is up to how the program is built:

| `Overflow` | a difference that does not fit |
| --- | --- |
| `wraps` | wraps around, as in a release, and the ramp does not arrive at its end |
| `stops` | stops the program, as with overflow checks, and no ramp is made |

A ramp that is made has the same colors in either build, so that `color` is one
function; `Allowed` tells where it is made.
-/

import GlobeView.Color.Basic

namespace GlobeView

/-- What a difference of channels does that 32 bits do not hold. -/
inductive Overflow where
  | wraps
  | stops
  deriving DecidableEq

/-- The difference `b - a` fits in 32 bits. -/
def Channel.Near (a b : Channel) : Prop :=
  -2147483648 ≤ b.toInt - a.toInt ∧ b.toInt - a.toInt ≤ 2147483647

instance (a b : Channel) : Decidable (a.Near b) :=
  inferInstanceAs (Decidable (_ ∧ _))

/-- A linear run from one color to another. -/
structure Ramp where
  start : Rgb
  stop : Rgb
  deriving DecidableEq

namespace Ramp

/-- The differences of all three channels fit in 32 bits. -/
structure Fits (r : Ramp) : Prop where
  red : r.start.red.Near r.stop.red
  green : r.start.green.Near r.stop.green
  blue : r.start.blue.Near r.stop.blue

instance (r : Ramp) : Decidable r.Fits :=
  decidable_of_iff (r.start.red.Near r.stop.red ∧ r.start.green.Near r.stop.green ∧
    r.start.blue.Near r.stop.blue)
    ⟨fun h => ⟨h.1, h.2.1, h.2.2⟩, fun h => ⟨h.red, h.green, h.blue⟩⟩

/-- A program that treats differences like this makes the ramp. -/
def Allowed (o : Overflow) (r : Ramp) : Prop :=
  o = .wraps ∨ r.Fits

instance (o : Overflow) (r : Ramp) : Decidable (r.Allowed o) :=
  inferInstanceAs (Decidable (_ ∨ _))

/-- One channel at position `t`: `⌊a + t (b - a)⌋`, where `b - a` is a channel, and so
wrapped around if it does not fit. -/
def channelAt (a b : Channel) (t : Float) : Channel :=
  Channel.ofFloor (a.toDouble + t * (b - a).toDouble)

/-- The color at position `t`. -/
def color (r : Ramp) (t alpha : Float) : Rgba where
  red := channelAt r.start.red r.stop.red t
  green := channelAt r.start.green r.stop.green t
  blue := channelAt r.start.blue r.stop.blue t
  alpha := alpha

end Ramp
end GlobeView

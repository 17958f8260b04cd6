/-
# Colors

A color has three integral channels and an alpha.  Channels are normally within
`[0, 255]`, but nothing holds them there: a scale that extrapolates leaves the
gamut.  Alpha means what the caller makes of it and is passed through.
-/

import GlobeView.Number.Arithmetic
import GlobeView.Number.Plain

namespace GlobeView

/-- One channel of a color, a signed 32-bit number. -/
abbrev Channel :=
  Int32

namespace Channel

/-- The channel of a double: its floor, held inside the range of a channel. -/
def ofFloor (x : Float) : Channel :=
  Int32.ofInt (Exact.floorWithin (-2147483648) 2147483647 x)

/-- The channel as a double, which is exact. -/
def toDouble (c : Channel) : Float :=
  Float.ofInt c.toInt

/-- The channel held inside `[0, 255]`. -/
def toByte (c : Channel) : UInt8 :=
  UInt8.ofNat (Exact.within 0 255 c.toInt).toNat

end Channel

/-- Three channels. -/
structure Rgb where
  red : Channel
  green : Channel
  blue : Channel
  deriving DecidableEq

/-- A color with an alpha. -/
structure Rgba where
  red : Channel
  green : Channel
  blue : Channel
  alpha : Float
  deriving DecidableEq

/-- The color `rgb(…)` with an alpha. -/
def Rgb.withAlpha (c : Rgb) (alpha : Float) : Rgba :=
  ⟨c.red, c.green, c.blue, alpha⟩

/-- A style text with the spacing that consumers compare against; numbers are
written in plain notation. -/
def colorStyle (red green blue alpha : Float) : String :=
  String.ofList <|
    ['r', 'g', 'b', 'a', '('] ++ plain red ++ [',', ' '] ++ plain green ++ [',', ' ']
      ++ plain blue ++ [',', ' '] ++ plain alpha ++ [')']

namespace Rgba

/-- The channels without the alpha. -/
def rgb (c : Rgba) : Rgb :=
  ⟨c.red, c.green, c.blue⟩

/-- Four bytes for a raster: channels and the rounded alpha held inside `[0, 255]`. -/
def toBytes (c : Rgba) : Vector UInt8 4 :=
  #v[c.red.toByte, c.green.toByte, c.blue.toByte,
    UInt8.ofNat (Exact.nearestWithin 0 255 c.alpha).toNat]

/-- The channels and the alpha as doubles. -/
def toDoubles (c : Rgba) : Vector Float 4 :=
  #v[c.red.toDouble, c.green.toDouble, c.blue.toDouble, c.alpha]

/-- The style text of the color. -/
def toStyle (c : Rgba) : String :=
  colorStyle c.red.toDouble c.green.toDouble c.blue.toDouble c.alpha

/-- Equality of colors as numbers: an alpha that is NaN equals no other. -/
def same (c d : Rgba) : Bool :=
  c.red == d.red && c.green == d.green && c.blue == d.blue && c.alpha == d.alpha

end Rgba

/-- A color scale gives a color to a sample and an alpha. -/
abbrev ColorScale :=
  Float → Float → Rgba

end GlobeView

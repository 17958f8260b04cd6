/-
# Greys for wind

Particle trails are drawn in opaque greys.  A palette holds the style texts of
the channels `85, 85 + step, …` up to 255, and sorts magnitudes into as many
buckets: everything from the maximum on falls into the last bucket, negative
magnitudes and NaN into the first.
-/

import GlobeView.Color.Basic
import GlobeView.Failure
import GlobeView.Log

namespace GlobeView

/-- Why a palette cannot be built. -/
inductive PaletteFault where
  | zeroStep
  | maximum (value : Float)
  deriving DecidableEq

/-- What a caller is told about a palette that cannot be built. -/
def PaletteFault.toFailure : PaletteFault → Failure
  | zeroStep => .invalidParameter "step" "must be positive"
  | maximum value =>
    .invalidParameter "max_value"
      ("must be finite and positive, got " ++ String.ofList (plain value))

/-- A palette of greys, brightest last, and the magnitude that is brightest. -/
structure WindPalette where
  styles : List String
  maximum : Float
  deriving DecidableEq

namespace WindPalette

/-- The dimmest grey that is visible on the globe. -/
def firstChannel : Nat :=
  85

/-- The brightest grey. -/
def lastChannel : Nat :=
  255

/-- The channels of a palette, in order. -/
def channels (step : Nat) : List Nat :=
  (List.range' firstChannel (lastChannel - firstChannel + 1) step).takeWhile (· ≤ lastChannel)

/-- The style of an opaque grey. -/
def grey (channel : Nat) : String :=
  let c := Float.ofNat channel
  colorStyle c c c 1.0

/-- The palette with a given distance between channels and a given maximum. -/
def build (step : Nat) (maximum : Float) : Except PaletteFault WindPalette :=
  if step = 0 then .error .zeroStep
  else if !maximum.isFinite || maximum ≤ 0.0 then .error (.maximum maximum)
  else .ok ⟨(channels step).map grey, maximum⟩

/-- The record of a palette that was built with a given step. -/
def record (p : WindPalette) (step : Nat) : LogRecord where
  level := .debug
  area := "color_scales::wind"
  message := "Built wind intensity scale"
  fields := [("step", .count step), ("max_value", .real p.maximum),
    ("buckets", .count p.styles.length)]

/-- The number of styles. -/
def size (p : WindPalette) : Nat :=
  p.styles.length

/-- The bucket of a magnitude: `⌊min(m, max) / max · (size - 1)⌋`. -/
def indexFor (p : WindPalette) (magnitude : Float) : Nat :=
  if magnitude.isNaN then 0
  else
    let share := Exact.minimum magnitude p.maximum / p.maximum * Float.ofNat (p.size - 1)
    (Exact.floorWithin 0 18446744073709551615 share).toNat

/-- The style of a magnitude. -/
def styleFor (p : WindPalette) (magnitude : Float) : Option String :=
  p.styles[p.indexFor magnitude]?

end WindPalette
end GlobeView

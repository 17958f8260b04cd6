/-
# Scale definitions

A definition names a kind of scale and its data; `build` checks it and returns
the scale.  The two spectra may come with bounds, and samples are then
normalised into the bounds first.

| definition | valid when |
| --- | --- |
| `segmented` | two breakpoints or more, values finite and not decreasing |
| `sinebow`, `extendedSinebow` | no bounds, or finite bounds with `low < high` |
-/

import GlobeView.Color.Sinebow
import GlobeView.Scale.Segmented

namespace GlobeView

/-- The two ends of a range of samples. -/
structure Bounds where
  low : Float
  high : Float
  deriving DecidableEq

/-- The kind of a scale and its data. -/
inductive ScaleDefinition where
  | segmented (units : Option String) (segments : List Breakpoint)
  | sinebow (bounds : Option Bounds)
  | extendedSinebow (bounds : Option Bounds)
  deriving DecidableEq

namespace ScaleDefinition

/-- Bounds between which a sample has a position. -/
def checkBounds (b : Bounds) : Except ScaleFault Bounds :=
  if b.low.isFinite && b.high.isFinite && b.low < b.high then .ok b
  else .error (.bounds b.low b.high)

/-- A spectrum whose samples are normalised into the bounds, if there are any. -/
def overBounds (spectrum : ColorScale) : Option Bounds → Except ScaleFault ColorScale
  | none => .ok spectrum
  | some b => (checkBounds b).map fun b point alpha =>
    spectrum (proportion point b.low b.high) alpha

/-- The scale of a definition. -/
def build (trig : Trigonometry) : ScaleDefinition → Except ScaleFault ColorScale
  | segmented _ segments => (SegmentedScale.build segments).map SegmentedScale.color
  | sinebow bounds => overBounds (Sinebow.color trig) bounds
  | extendedSinebow bounds => overBounds (Sinebow.extended trig) bounds

/-- What comes of building the definition, or nothing where the program stops.  The spectra
are built without making a ramp. -/
def construct (o : Overflow) (trig : Trigonometry) :
    ScaleDefinition → Option (Except ScaleFault ColorScale)
  | segmented _ segments => (SegmentedScale.construct o segments).map fun result =>
    result.map SegmentedScale.color
  | sinebow bounds => some (overBounds (Sinebow.color trig) bounds)
  | extendedSinebow bounds => some (overBounds (Sinebow.extended trig) bounds)

/-- What building the definition reports. -/
def records : ScaleDefinition → List LogRecord
  | segmented _ segments => match SegmentedScale.build segments with
    | .ok scale => [scale.record]
    | .error _ => []
  | _ => []

end ScaleDefinition
end GlobeView

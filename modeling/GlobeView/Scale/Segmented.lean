/-
# Segmented scales

A segmented scale runs linearly through breakpoints, each a value and a color.
Outside the first and the last value it keeps their colors.  Values may repeat:
a segment without width is never selected, because the first segment that
reaches a sample is the one taken.

Building checks the values and then makes the ramps.  `build` is what a release
does, where making a ramp never stops the program; `construct` is the same for
both ways to treat a difference of channels that overflows.
-/

import GlobeView.Color.Ramp
import GlobeView.Failure
import GlobeView.Log

namespace GlobeView

/-- A sample value and the color there. -/
structure Breakpoint where
  value : Float
  color : Rgb
  deriving DecidableEq

/-- Why a scale cannot be built. -/
inductive ScaleFault where
  | tooFewBreakpoints (count : Nat)
  | notFinite (value : Float)
  | decreasing (value before : Float)
  | bounds (low high : Float)
  deriving DecidableEq

namespace ScaleFault

/-- A double inside a message. -/
def number (x : Float) : String :=
  String.ofList (plain x)

/-- What is wrong with the scale. -/
def message : ScaleFault → String
  | tooFewBreakpoints count =>
    "segmented scale needs at least 2 breakpoints, got " ++ String.ofList (decimalDigits count)
  | notFinite value => "breakpoint value " ++ number value ++ " is not finite"
  | decreasing value before =>
    "breakpoint values must be non-decreasing, " ++ number value ++ " follows " ++ number before
  | bounds low high =>
    "bounds must be finite with low < high, got [" ++ number low ++ ", " ++ number high ++ "]"

/-- What a caller is told about a scale that cannot be built. -/
def toFailure (fault : ScaleFault) : Failure :=
  .invalidScale fault.message

end ScaleFault

/-- The run between two adjacent breakpoints. -/
structure Segment where
  low : Float
  high : Float
  ramp : Ramp
  deriving DecidableEq

/-- A scale through breakpoints. -/
structure SegmentedScale where
  first : Breakpoint
  last : Breakpoint
  segments : List Segment
  deriving DecidableEq

/-- The pairs of neighbours in a list. -/
def neighbours {α : Type} (xs : List α) : List (α × α) :=
  xs.zip xs.tail

namespace SegmentedScale

/-- The first of the values that is not finite. -/
def findNotFinite (points : List Breakpoint) : Option Breakpoint :=
  points.find? fun p => !p.value.isFinite

/-- The first neighbours of which the second has the smaller value. -/
def findDecrease (points : List Breakpoint) : Option (Breakpoint × Breakpoint) :=
  (neighbours points).find? fun w => w.2.value < w.1.value

/-- The segment between two neighbours. -/
def segmentBetween (w : Breakpoint × Breakpoint) : Segment :=
  ⟨w.1.value, w.2.value, ⟨w.1.color, w.2.color⟩⟩

/-- The scale through the given breakpoints: at least two of them, their values
finite and not decreasing, which is checked in this order. -/
def build : List Breakpoint → Except ScaleFault SegmentedScale
  | first :: second :: rest =>
    let points := first :: second :: rest
    match findNotFinite points with
    | some p => .error (.notFinite p.value)
    | none =>
      match findDecrease points with
      | some (before, p) => .error (.decreasing p.value before.value)
      | none =>
        .ok ⟨first, (second :: rest).getLast (by simp),
          (neighbours points).map segmentBetween⟩
  | points => .error (.tooFewBreakpoints points.length)

/-- What comes of building, or nothing where the program stops at a ramp.  The ramps are
made last, so that faulty breakpoints are told in every program. -/
def construct (o : Overflow) (points : List Breakpoint) :
    Option (Except ScaleFault SegmentedScale) :=
  match build points with
  | .error fault => some (.error fault)
  | .ok s => if ∀ segment ∈ s.segments, segment.ramp.Allowed o then some (.ok s) else none

/-- The segment that decides the color of a sample inside the domain. -/
def segmentFor (s : SegmentedScale) (point : Float) : Option Segment :=
  (s.segments.find? fun segment => point ≤ segment.high).or s.segments.getLast?

/-- The color of a sample. -/
def color (s : SegmentedScale) (point alpha : Float) : Rgba :=
  if point ≤ s.first.value then s.first.color.withAlpha alpha
  else if s.last.value ≤ point then s.last.color.withAlpha alpha
  else match s.segmentFor point with
    | some segment => segment.ramp.color (proportion point segment.low segment.high) alpha
    | none => s.last.color.withAlpha alpha

/-- The values of the first and the last breakpoint. -/
def domain (s : SegmentedScale) : Float × Float :=
  (s.first.value, s.last.value)

/-- The record of a scale that was built. -/
def record (s : SegmentedScale) : LogRecord where
  level := .debug
  area := "color_scales::segmented"
  message := "Built segmented color scale"
  fields := [("segments", .count s.segments.length), ("low", .real s.first.value),
    ("high", .real s.last.value)]

end SegmentedScale
end GlobeView

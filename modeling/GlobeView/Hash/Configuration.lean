/-
# Configurations

A configuration says what the globe renders: which data, under which
projection and overlay, with or without grid points, and on which topology.

`Configuration.toHash` writes it as the fragment of a URL: the selection, then
the overlay, the projection with its orientation, and the grid, leaving out the
default overlay, an empty orientation and a hidden grid.  Without a selection
there is nothing to write.
-/

namespace GlobeView

/-- The date that means the most recent data. -/
def currentDate : String :=
  "current"

/-- The projection used when none is named, or none that is known. -/
def defaultProjection : String :=
  "orthographic"

/-- The orientation of a configuration that no hash was read for. -/
def defaultOrientation : String :=
  "0,0,0"

/-- The overlay used when none is named; it is always accepted. -/
def defaultOverlay : String :=
  "default"

/-- Which data to show: when, which parameter, and where. -/
structure Selection where
  /-- `current`, or year, month and day separated by slashes. -/
  date : String
  /-- Four digits, or nothing when the date is `current`. -/
  hour : String
  param : String
  surface : String
  level : String
  deriving DecidableEq, Repr

namespace Selection

/-- Whether the most recent data is selected. -/
def isCurrent (s : Selection) : Bool :=
  s.date == currentDate

/-- The front part of a hash. -/
def datePart (s : Selection) : String :=
  if s.isCurrent then currentDate else s.date ++ "/" ++ s.hour ++ "Z"

end Selection

/-- What the globe renders. -/
structure Configuration where
  selection : Option Selection
  projection : String
  /-- Numbers separated by commas, or nothing. -/
  orientation : String
  overlayType : String
  showGridPoints : Bool
  topology : String
  deriving DecidableEq, Repr

namespace Configuration

/-- What a hash starts from before its options are applied. -/
def ofSelection (selection : Selection) (topology : String) : Configuration where
  selection := some selection
  projection := defaultProjection
  orientation := ""
  overlayType := defaultOverlay
  showGridPoints := false
  topology := topology

/-- What the globe starts from when there is no hash. -/
def initial (topology : String) : Configuration where
  selection := none
  projection := defaultProjection
  orientation := defaultOrientation
  overlayType := defaultOverlay
  showGridPoints := false
  topology := topology

/-- The overlay as an option, unless it is the default or missing. -/
def overlayParts (c : Configuration) : List String :=
  if c.overlayType = "" ∨ c.overlayType = defaultOverlay then []
  else ["overlay=" ++ c.overlayType]

/-- Projection and orientation as an option, as far as there are any. -/
def projectionParts (c : Configuration) : List String :=
  if c.projection = "" then
    if c.orientation = "" then [] else [c.orientation]
  else
    if c.orientation = "" then [c.projection] else [c.projection ++ "=" ++ c.orientation]

/-- The grid as an option, when it is shown. -/
def gridParts (c : Configuration) : List String :=
  if c.showGridPoints then ["grid=on"] else []

/-- The hash of a configuration that has a selection. -/
def toHash (c : Configuration) : Option String :=
  c.selection.map fun s =>
    "/".intercalate <|
      [s.datePart, s.param, s.surface, s.level]
        ++ c.overlayParts ++ c.projectionParts ++ c.gridParts

end Configuration
end GlobeView

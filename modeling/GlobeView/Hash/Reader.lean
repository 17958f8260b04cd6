/-
# Reading hashes

Options apply from left to right to the configuration of the selection:

* a projection whose name is known replaces the projection, and the orientation
  by its value or by nothing;
* an overlay whose name is known, or is the default, replaces the overlay;
* `grid=on` shows the grid points, and nothing hides them again.

All other options are ignored.  A `HashReader` holds the known names and the
topology, and reads one hash after another.
-/

import GlobeView.Device
import GlobeView.Hash.Grammar
import GlobeView.Log
import GlobeView.Names

namespace GlobeView

section

variable {P O : Type} [NameCollection P] [NameCollection O]

/-- Applies one option. -/
def Configuration.apply (projections : P) (overlays : O) (c : Configuration) :
    HashOption → Configuration
  | .projection name orientation =>
    if NameCollection.contains projections name then
      { c with projection := name, orientation := orientation.getD "" }
    else c
  | .overlay name =>
    if NameCollection.contains overlays name || name == defaultOverlay then
      { c with overlayType := name }
    else c
  | .grid name => if name = "on" then { c with showGridPoints := true } else c
  | .unrecognized => c

/-- The configuration of a hash, or nothing when it does not match the grammar. -/
def readHash (projections : P) (overlays : O) (topology hash : String) : Option Configuration :=
  (HashGrammar.selection hash.toList).map fun (selection, rest) =>
    ((HashGrammar.segments rest).map HashOption.classify).foldl
      (Configuration.apply projections overlays) (.ofSelection selection topology)

/-- The configuration to start from when there is no hash: that of the empty hash, with
the defaults put in.  The empty hash never matches, so there is no selection. -/
def initialConfiguration (projections : P) (overlays : O) (topology : String) : Configuration :=
  let c := (readHash projections overlays topology "").getD ⟨none, "", "", "", false, ""⟩
  { c with
    projection := defaultProjection
    orientation := defaultOrientation
    overlayType := defaultOverlay
    showGridPoints := false
    topology := topology }

/-- The empty hash leaves nothing but the defaults. -/
theorem initialConfiguration_eq (projections : P) (overlays : O) (topology : String) :
    initialConfiguration projections overlays topology = .initial topology :=
  rfl

/-- What an ignored option is reported as. -/
def HashOption.records (projections : P) (overlays : O) (segment : List Char) : List LogRecord :=
  let ignored (message field value : String) : List LogRecord :=
    [⟨.debug, "hash_config::parser", message, [(field, .text value)]⟩]
  match HashOption.classify segment with
  | .projection name _ =>
    if NameCollection.contains projections name then []
    else ignored "Ignoring unknown projection" "name" name
  | .overlay name =>
    if NameCollection.contains overlays name || name == defaultOverlay then []
    else ignored "Ignoring unknown overlay" "overlay" name
  | .grid _ => []
  | .unrecognized =>
    if segment.isEmpty then []
    else ignored "Ignoring unrecognized hash option" "segment" (String.ofList segment)

/-- What reading a hash reports. -/
def hashRecords (projections : P) (overlays : O) (hash : String) : List LogRecord :=
  match HashGrammar.selection hash.toList with
  | none =>
    [⟨.debug, "hash_config::parser", "Hash does not match the configuration grammar",
      [("hash", .text hash)]⟩]
  | some (_, rest) =>
    (HashGrammar.segments rest).flatMap (HashOption.records projections overlays)

end

/-- Known names and a topology, for reading any number of hashes. -/
structure HashReader where
  projections : NameSet
  overlays : NameSet
  topology : String
  deriving DecidableEq

namespace HashReader

/-- The reader for a device. -/
def ofNames (projections overlays : List String) (device : Device) : HashReader :=
  ⟨.ofNames projections, .ofNames overlays, device.topology⟩

/-- The reader with another topology. -/
def withTopology (r : HashReader) (topology : String) : HashReader :=
  { r with topology := topology }

/-- The configuration of a hash. -/
def read (r : HashReader) (hash : String) : Option Configuration :=
  readHash r.projections r.overlays r.topology hash

/-- The configuration to start from when there is no hash. -/
def initial (r : HashReader) : Configuration :=
  initialConfiguration r.projections r.overlays r.topology

/-- What reading a hash reports. -/
def records (r : HashReader) (hash : String) : List LogRecord :=
  hashRecords r.projections r.overlays hash

/-- What starting without a hash reports: the same as the empty hash. -/
def initialRecords (r : HashReader) : List LogRecord :=
  r.records ""

end HashReader
end GlobeView

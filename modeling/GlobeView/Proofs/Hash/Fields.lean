/-
# The fields of a configuration, one by one

Options are applied to a whole configuration, but every option concerns one of
its parts: the projection with its orientation, the overlay, or the grid.  So
applying a list of options is three folds that do not know of each other:

| part | changed by | looks into |
| --- | --- | --- |
| projection and orientation | `projectionAfter` | the known projections |
| overlay | `overlayAfter` | the known overlays |
| grid | `gridAfter` | nothing |

`readHash_eq` puts the configuration of a hash together from the three.
-/

import GlobeView.Hash.Reader

namespace GlobeView

section

variable {P O : Type} [NameCollection P] [NameCollection O]

/-- Projection and orientation after an option. -/
def projectionAfter (projections : P) (current : String × String) :
    HashOption → String × String
  | .projection name orientation =>
    if NameCollection.contains projections name then (name, orientation.getD "") else current
  | _ => current

/-- The overlay after an option. -/
def overlayAfter (overlays : O) (current : String) : HashOption → String
  | .overlay name =>
    if NameCollection.contains overlays name || name == defaultOverlay then name else current
  | _ => current

/-- Whether the grid is shown after an option. -/
def gridAfter (current : Bool) : HashOption → Bool
  | .grid name => if name = "on" then true else current
  | _ => current

namespace Configuration

/-- The configuration with other values in the parts that options change. -/
def withParts (c : Configuration) (projection : String × String) (overlay : String)
    (grid : Bool) : Configuration :=
  { c with
    projection := projection.1
    orientation := projection.2
    overlayType := overlay
    showGridPoints := grid }

/-- **An option changes every part by itself.** -/
theorem apply_eq (projections : P) (overlays : O) (c : Configuration) (o : HashOption) :
    c.apply projections overlays o =
      c.withParts (projectionAfter projections (c.projection, c.orientation) o)
        (overlayAfter overlays c.overlayType o) (gridAfter c.showGridPoints o) := by
  cases o with
  | projection name orientation =>
    dsimp only [apply, projectionAfter]
    split <;> rfl
  | overlay name =>
    dsimp only [apply, overlayAfter]
    split <;> rfl
  | grid name =>
    dsimp only [apply, gridAfter]
    split <;> rfl
  | unrecognized => rfl

/-- **Options change every part by itself.** -/
theorem foldl_apply_eq (projections : P) (overlays : O) (c : Configuration)
    (os : List HashOption) :
    os.foldl (apply projections overlays) c =
      c.withParts (os.foldl (projectionAfter projections) (c.projection, c.orientation))
        (os.foldl (overlayAfter overlays) c.overlayType) (os.foldl gridAfter c.showGridPoints) := by
  induction os generalizing c with
  | nil => rfl
  | cons o os ih =>
    rw [List.foldl_cons, ih, apply_eq]
    rfl

end Configuration

/-- **The configuration of a hash, part by part.** -/
theorem readHash_eq (projections : P) (overlays : O) (topology hash : String) :
    readHash projections overlays topology hash =
      (HashGrammar.selection hash.toList).map fun (selection, rest) =>
        let options := (HashGrammar.segments rest).map HashOption.classify
        (Configuration.ofSelection selection topology).withParts
          (options.foldl (projectionAfter projections) (defaultProjection, ""))
          (options.foldl (overlayAfter overlays) defaultOverlay)
          (options.foldl gridAfter false) := by
  unfold readHash
  refine congrArg (Option.map · _) (funext fun read => ?_)
  exact Configuration.foldl_apply_eq ..

end

end GlobeView

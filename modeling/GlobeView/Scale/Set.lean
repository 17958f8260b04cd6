/-
# Sets of scales

A set holds scale definitions under names.  A scale is built by its name; a name
that is missing is answered with the names there are, in order.
-/

import GlobeView.Names
import GlobeView.Scale.Definition
import GlobeView.Text.Printable

namespace GlobeView

/-- Scale definitions by name. -/
structure ScaleSet where
  scales : NameMap ScaleDefinition

namespace ScaleSet

/-- The set without scales. -/
def empty : ScaleSet :=
  ⟨.empty⟩

/-- The definition under a name. -/
def get? (set : ScaleSet) (name : String) : Option ScaleDefinition :=
  set.scales.get? name

/-- What a caller is told about a name that is missing. -/
def missing (set : ScaleSet) (name : String) : Failure :=
  .configuration <| "Scale '" ++ name ++ "' not found. Available scales: "
    ++ String.ofList (Printable.quotedList set.scales.names)

/-- The scale under a name. -/
def build (set : ScaleSet) (trig : Trigonometry) (name : String) : Except Failure ColorScale :=
  match set.get? name with
  | none => .error (set.missing name)
  | some definition => (definition.build trig).mapError ScaleFault.toFailure

/-- What comes of building the scale under a name, or nothing where the program stops. -/
def construct (set : ScaleSet) (o : Overflow) (trig : Trigonometry) (name : String) :
    Option (Except Failure ColorScale) :=
  match set.get? name with
  | none => some (.error (set.missing name))
  | some definition => (definition.construct o trig).map fun result =>
    result.mapError ScaleFault.toFailure

/-- What building a scale reports. -/
def records (set : ScaleSet) (name : String) : List LogRecord :=
  match set.get? name with
  | none => []
  | some definition => definition.records

end ScaleSet
end GlobeView

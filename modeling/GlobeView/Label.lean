/-
# Labels

Texts shown beside the globe: coordinates such as `26.50° N, 153.00° W`, scalars
in display units, and winds such as `270° @ 5.0`, which name the direction the
wind blows from, rounded to five degrees.
-/

import GlobeView.Color.Sinebow

namespace GlobeView

/-- How a raw value is shown: converted, with a number of places, under a label. -/
structure Units where
  label : String
  convert : Float → Float
  precision : Nat

namespace Units

/-- Meters per second, as they come. -/
def metersPerSecond (precision : Nat) : Units :=
  ⟨"m/s", fun x => x, precision⟩

/-- Kilometers per hour from meters per second. -/
def kilometersPerHour (precision : Nat) : Units :=
  ⟨"km/h", fun x => x * 3.6, precision⟩

/-- Degrees Celsius from kelvins. -/
def celsius (precision : Nat) : Units :=
  ⟨"°C", fun x => x - 273.15, precision⟩

/-- Degrees Fahrenheit from kelvins. -/
def fahrenheit (precision : Nat) : Units :=
  ⟨"°F", fun x => x * 9.0 / 5.0 - 459.67, precision⟩

/-- Hectopascals from pascals. -/
def hectopascals (precision : Nat) : Units :=
  ⟨"hPa", fun x => x / 100.0, precision⟩

/-- The value with its sign turned. -/
def negated (precision : Nat) : Units :=
  ⟨"neg", fun x => -x, precision⟩

/-- A value in these units, without the label. -/
def text (u : Units) (value : Float) : List Char :=
  toFixed (u.convert value) u.precision

end Units

/-- Longitude `lambda` and latitude `phi`, latitude first. -/
def coordinatesLabel (lambda phi : Float) : String :=
  String.ofList (toFixed phi.abs 2) ++ "° " ++ (if 0.0 ≤ phi then "N" else "S") ++ ", "
    ++ String.ofList (toFixed lambda.abs 2) ++ "° " ++ (if 0.0 ≤ lambda then "E" else "W")

/-- A scalar in the given units. -/
def scalarLabel (value : Float) (units : Units) : String :=
  String.ofList (units.text value)

/-- A wind at the surface: eastward and northward parts, and magnitude. -/
structure Wind where
  eastward : Float
  northward : Float
  magnitude : Float

namespace Wind

/-- The direction the wind blows from, in degrees from -180 to 180. -/
def bearing (trig : Trigonometry) (w : Wind) : Float :=
  trig.atan2 (-w.eastward) (-w.northward) / fullTurn * 360.0

/-- The bearing from 0 degrees up, rounded to five degrees. -/
def roundedBearing (trig : Trigonometry) (w : Wind) : Float :=
  Exact.nearest (Exact.remainder (w.bearing trig + 360.0) 360.0 / 5.0) * 5.0

/-- The label of a wind, its magnitude in the given units. -/
def label (trig : Trigonometry) (w : Wind) (units : Units) : String :=
  String.ofList (toFixed (w.roundedBearing trig) 0) ++ "° @ " ++ scalarLabel w.magnitude units

end Wind
end GlobeView

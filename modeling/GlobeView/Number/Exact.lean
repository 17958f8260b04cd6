/-
# What a double stands for

A finite double is `± m · 2^e` with a natural `m`.  Whole parts, nearest
integers and conversions to a bounded integer are therefore questions about
integers, and the functions here answer them exactly, in `Nat` and `Int`:

| function | answer for finite `x` | NaN | `-∞`, `+∞` |
| --- | --- | --- | --- |
| `floor` | `⌊x⌋`, as a double | NaN | unchanged |
| `nearest` | the closest integer, a half going away from zero | NaN | unchanged |
| `floorWithin lo hi` | `⌊x⌋` held inside `[lo, hi]` | 0 | `lo`, `hi` |
| `nearestWithin lo hi` | the closest integer held inside `[lo, hi]` | 0 | `lo`, `hi` |

`minimum` and `maximum` return the other operand when one is NaN.  The `remainder` of a
division is a question about naturals as well, once both operands have the smaller of
their exponents, and it is a double itself.
-/

namespace GlobeView
namespace Exact

open Float.Model UnpackedFloat

/-- `⌊v · 2^e⌋`. -/
def floorScaled (v e : Int) : Int :=
  if 0 ≤ e then v * Int.pow 2 e.toNat else v / Int.pow 2 (-e).toNat

/-- `m · 2^e` to the closest natural, a half going up. -/
def nearestScaled (m : Nat) (e : Int) : Nat :=
  if 0 ≤ e then m * Nat.pow 2 e.toNat
  else (2 * m + Nat.pow 2 (-e).toNat) / Nat.pow 2 ((-e).toNat + 1)

/-- The largest integral double that is not above `x`. -/
def floor (x : Float) : Float :=
  match x.toModel.unpack with
  | .finite s m e _ => if 0 ≤ e then x else Float.ofInt (floorScaled (s.apply m) e)
  | _ => x

/-- The integral double closest to `x`, a half going away from zero. -/
def nearest (x : Float) : Float :=
  match x.toModel.unpack with
  | .finite s m e _ => if 0 ≤ e then x else Float.ofInt (s.apply (nearestScaled m e))
  | _ => x

/-- `v` held inside `[lo, hi]`. -/
def within (lo hi v : Int) : Int :=
  max lo (min hi v)

/-- `⌊x⌋` held inside `[lo, hi]`; NaN gives 0. -/
def floorWithin (lo hi : Int) (x : Float) : Int :=
  match x.toModel.unpack with
  | .notANumber => 0
  | .infinity .negative => lo
  | .infinity .positive => hi
  | .zero _ => within lo hi 0
  | .finite s m e _ => within lo hi (floorScaled (s.apply m) e)

/-- The integer closest to `x` held inside `[lo, hi]`; NaN gives 0. -/
def nearestWithin (lo hi : Int) (x : Float) : Int :=
  match x.toModel.unpack with
  | .notANumber => 0
  | .infinity .negative => lo
  | .infinity .positive => hi
  | .zero _ => within lo hi 0
  | .finite s m e _ => within lo hi (s.apply (nearestScaled m e))

/-- The smaller operand; a NaN loses to the other one. -/
def minimum (x y : Float) : Float :=
  if x.isNaN then y else if y < x then y else x

/-- The larger operand; a NaN loses to the other one. -/
def maximum (x y : Float) : Float :=
  if x.isNaN then y else if x < y then y else x

/-- The remainder of division with the quotient cut off towards zero, which has the sign of
`x`; there is none of an infinity, or by zero. -/
def remainder (x y : Float) : Float :=
  match x.toModel.unpack, y.toModel.unpack with
  | .notANumber, _ | .infinity _, _ | _, .notANumber | _, .zero _ => 0.0 / 0.0
  | .zero _, _ | _, .infinity _ => x
  | .finite s m e _, .finite _ n d _ =>
    let low := min e d
    let left := (decreaseExponent m e low).1 % (decreaseExponent n d low).1
    .ofModel (Float.Model.pack (normalize .binary64 (s.apply left) low s))

/-- **Whatever the double, its floor within a range that holds zero is in that range.** -/
theorem floorWithin_bounds {lo hi : Int} (hlo : lo ≤ 0) (hhi : 0 ≤ hi) (x : Float) :
    lo ≤ floorWithin lo hi x ∧ floorWithin lo hi x ≤ hi := by
  unfold floorWithin within
  split <;> omega

end Exact
end GlobeView

/-
# Directions of winds

The label of a wind names the direction it blows from as a multiple of five degrees.  Its
azimuth, the bearing with the turn put in that a negative one lacks, is in `[0, 360)`, however
the steps up to it are rounded (`azimuth_mem`).  The multiple is the closest one to the azimuth,
halves going up: the fifth of the azimuth is rounded, but not past a half between two integers,
five times which is a double (`nearest_fifth_worth`).

| azimuth | what is printed |
| --- | --- |
| below 357.5 | one of 0, 5, …, 355 |
| from 357.5 on | 360 |

So the turn is taken off before the rounding and not after it, and north has two labels
(`label_direction`).
-/

import GlobeView.Label
import GlobeView.Proofs.Number.Proportion
import GlobeView.Proofs.Number.Quotient
import GlobeView.Proofs.Number.Whole

namespace GlobeView

open Exact

/-! ### The closest multiple of five -/

/-- **A fifth is rounded, but not past a half between two integers.** -/
theorem Exact.floor_rounded_fifth {t : ℚ} (ht : IsDouble t) (h0 : 0 ≤ t) (h : t < 360) :
    ⌊rounded (t / 5) + 1 / 2⌋ = ⌊t / 5 + 1 / 2⌋ := by
  have hlow := Int.floor_le (t / 5 + 1 / 2)
  have hhigh := Int.lt_floor_add_one (t / 5 + 1 / 2)
  have hnonneg : 0 ≤ ⌊t / 5 + 1 / 2⌋ := Int.floor_nonneg.2 (by linarith)
  have hle : ⌊t / 5 + 1 / 2⌋ < 73 := Int.floor_lt.2 (by push_cast; linarith)
  generalize ⌊t / 5 + 1 / 2⌋ = j at hlow hhigh hnonneg hle
  -- Halves and five times halves are doubles, so rounding does not cross them.
  have hbelow := (rounded_half (k := 2 * j - 1) (by rw [abs_lt]; omega)).1
  have habove := rounded_half (k := 2 * j + 1) (by rw [abs_lt]; omega)
  have hproduct := isDouble_half (k := 5 * (2 * j + 1)) (by rw [abs_lt]; omega)
  push_cast at hbelow habove hproduct
  rw [mul_div_assoc] at hproduct
  -- The upper half is not close to zero, where rounding would be coarser.
  have hlarge : smallestNormal < |(2 * j + 1 : ℚ) / 2| := by
    have hj : (0 : ℚ) ≤ j := by exact_mod_cast hnonneg
    rw [abs_of_pos (by positivity)]
    linarith [smallestNormal_lt_half]
  rw [Int.floor_eq_iff]
  constructor
  · have hround := rounded_mono (show (2 * j - 1 : ℚ) / 2 ≤ t / 5 by linarith)
    linarith
  · have hround := (rounded_div_lt_iff ht (by norm_num) habove.1 hlarge habove.2 hproduct).2
      (by linarith)
    linarith

/-- **The nearest multiple of five is found from a rounded fifth,** a half going up. -/
theorem nearest_fifth_worth {x : Float} (hx : x.isFinite = true) (h0 : 0 ≤ toRat x)
    (h : toRat x < 360) : ∃ j : ℕ, j ≤ 72 ∧ (j : ℤ) = ⌊toRat x / 5 + 1 / 2⌋ ∧
      Worth (nearest (x / 5.0) * 5.0) (5 * j : ℕ) := by
  have hfive : Worth 5.0 (5 : ℤ) := literal_worth (by norm_num) rfl
  have hfive' := hfive.isFinite (rounded_intCast (by norm_num)).2
  have hfifth := div_worth hx hfive' (by rw [hfive.toRat_eq]; norm_num)
  rw [hfive.toRat_eq, Int.cast_ofNat] at hfifth
  -- A fifth of the azimuth is in `[0, 72]`, and rounding keeps it there.
  obtain ⟨hfinite, hlow, -⟩ := hfifth.mem_halves (a := 0) (b := 144) (by norm_num) (by norm_num)
    (by push_cast; linarith) (by push_cast; linarith)
  have hnearest := nearest_worth hfinite (by simpa using hlow)
  rw [hfifth.toRat_eq, floor_rounded_fifth (isDouble_toRat hx) h0 h] at hnearest
  have hnonneg : 0 ≤ ⌊toRat x / 5 + 1 / 2⌋ := Int.floor_nonneg.2 (by linarith)
  have hle : ⌊toRat x / 5 + 1 / 2⌋ < 73 := Int.floor_lt.2 (by push_cast; linarith)
  obtain ⟨j, hj⟩ := Int.eq_ofNat_of_zero_le hnonneg
  rw [hj] at hnearest hle
  have hmultiple := mul_worth
    (hnearest.isFinite (rounded_intCast (by rw [Int.abs_eq_natAbs]; omega)).2) hfive'
  rw [hnearest.toRat_eq, hfive.toRat_eq, ← Int.cast_mul, mul_comm,
    (rounded_intCast (by rw [Int.abs_eq_natAbs]; omega)).1] at hmultiple
  exact ⟨j, by omega, hj.symm, by exact_mod_cast hmultiple⟩

/-! ### The azimuth -/

/-- Half a turn in radians. -/
def halfTurn : Float :=
  3.141592653589793

/-- Finite points have an angle of at most half a turn either way. -/
structure Trigonometry.WithinHalfTurn (trig : Trigonometry) : Prop where
  atan2 : ∀ y x : Float, y.isFinite = true → x.isFinite = true →
    -halfTurn ≤ trig.atan2 y x ∧ trig.atan2 y x ≤ halfTurn

/-- Half a turn is worth a positive number. -/
theorem halfTurn_pos : 0 < toRat halfTurn := by
  have hunpack : ∃ h, halfTurn.toModel.unpack = .finite .positive 7074237752028440 (-51) h :=
    ⟨by decide, rfl⟩
  obtain ⟨_, hunpack⟩ := hunpack
  rw [toRat, hunpack, value_finite, signed]
  positivity

/-- The double of a full turn is worth twice that of half a turn. -/
theorem toRat_fullTurn : toRat fullTurn = 2 * toRat halfTurn := by
  have hhalf : ∃ h, halfTurn.toModel.unpack = .finite .positive 7074237752028440 (-51) h :=
    ⟨by decide, rfl⟩
  have hfull : ∃ h, fullTurn.toModel.unpack = .finite .positive 7074237752028440 (-50) h :=
    ⟨by decide, rfl⟩
  obtain ⟨_, hhalf⟩ := hhalf
  obtain ⟨_, hfull⟩ := hfull
  rw [toRat, toRat, hhalf, hfull, value_finite, value_finite, signed, signed]
  norm_num

/-- A full turn is 360 degrees. -/
theorem degrees_worth : Worth 360.0 360 := by
  have h := literal_worth (n := 360) (by norm_num) (rfl : Float.ofInt 360 = 360.0)
  rwa [Int.cast_ofNat] at h

/-- A full turn of degrees is a finite double. -/
theorem isFinite_degrees : (360.0 : Float).isFinite = true := by
  decide

/-- Halfway between the last multiple of five below a full turn and the turn. -/
theorem lastHalf_worth : Worth 357.5 (715 / 2) := by
  have hunpack : ∃ h, (357.5 : Float).toModel.unpack = .finite .positive 6289206510878720 (-44) h :=
    ⟨by decide, rfl⟩
  obtain ⟨_, hunpack⟩ := hunpack
  refine ⟨by decide, ?_⟩
  rw [toRat, hunpack, value_finite, signed]
  norm_num

/-- The negative of a finite double is finite. -/
theorem isFinite_neg {x : Float} (hx : x.isFinite = true) : (-x).isFinite = true :=
  (neg_worth (notNaN_of_isFinite hx)).isFinite (by rw [abs_neg]; exact (isFinite_iff.1 hx).2)

namespace Wind

/-- The direction the wind blows from, in degrees from 0 up to and without 360. -/
def azimuth (trig : Trigonometry) (w : Wind) : Float :=
  remainder (w.bearing trig + 360.0) 360.0

/-- The label that names `5 j` degrees. -/
def multipleLabel (w : Wind) (units : Units) (j : ℕ) : String :=
  String.ofList (decimalDigits (5 * j)) ++ "° @ " ++ scalarLabel w.magnitude units

section

variable {trig : Trigonometry} (htrig : trig.WithinHalfTurn) {w : Wind}
  (heast : w.eastward.isFinite = true) (hnorth : w.northward.isFinite = true)

include htrig heast hnorth

/-- **The bearing is half a turn at most,** however it is rounded to degrees. -/
theorem bearing_mem :
    (w.bearing trig).isFinite = true ∧ -180 ≤ toRat (w.bearing trig) ∧
      toRat (w.bearing trig) ≤ 180 := by
  have hhalf : halfTurn.isFinite = true := by decide
  have hfull : fullTurn.isFinite = true := by decide
  have hpos := halfTurn_pos
  have hturn := toRat_fullTurn
  obtain ⟨hlow, hhigh⟩ := htrig.atan2 _ _ (isFinite_neg heast) (isFinite_neg hnorth)
  have hlow' := (le_iff.1 hlow).2.2
  have hhigh' := (le_iff.1 hhigh).2.2
  have hangle := isFinite_of_between (le_iff.1 hhigh).1 (isFinite_neg hhalf) hhalf hlow' hhigh'
  rw [(neg_worth (notNaN_of_isFinite hhalf)).toRat_eq] at hlow'
  -- The angle is in `[-1/2, 1/2]` as a part of a turn, also after rounding.
  obtain ⟨hturns, hturnsLow, hturnsHigh⟩ :=
    (div_worth hangle hfull (by rw [hturn]; positivity)).mem_halves (a := -1) (b := 1)
      (by norm_num) (by norm_num) (by rw [hturn, le_div_iff₀ (by positivity)]; push_cast; linarith)
      (by rw [hturn, div_le_iff₀ (by positivity)]; push_cast; linarith)
  push_cast at hturnsLow hturnsHigh
  -- Half a turn is 180 degrees, which is a double, so rounding stops there again.
  have hdegrees := mul_worth hturns isFinite_degrees
  rw [degrees_worth.toRat_eq] at hdegrees
  obtain ⟨hfinite, hmem⟩ := hdegrees.mem_halves (a := -360) (b := 360) (by norm_num) (by norm_num)
    (by push_cast; linarith) (by push_cast; linarith)
  norm_num at hmem
  exact ⟨hfinite, hmem⟩

/-- **The azimuth is in `[0, 360)`,** the remainder of a sum that is rounded. -/
theorem azimuth_mem :
    (w.azimuth trig).isFinite = true ∧ 0 ≤ toRat (w.azimuth trig) ∧
      toRat (w.azimuth trig) < 360 := by
  obtain ⟨hbearing, hlow, hhigh⟩ := bearing_mem htrig heast hnorth
  have hturn := degrees_worth.toRat_eq
  have hshifted := add_worth hbearing isFinite_degrees
  rw [hturn] at hshifted
  -- The sum is at least half a turn, so that the remainder is one of a positive number.
  obtain ⟨hfinite, hlow', -⟩ := hshifted.mem_halves (a := 360) (b := 1080) (by norm_num)
    (by norm_num) (by push_cast; linarith) (by push_cast; linarith)
  have hpos : 0 < toRat (w.bearing trig + 360.0) := by
    push_cast at hlow'
    linarith
  have hremainder := remainder_worth hfinite isFinite_degrees hpos (by rw [hturn]; norm_num)
  obtain ⟨hnonneg, hlt, -⟩ := sub_mul_floor_mem hpos.le (by norm_num : (0 : ℚ) < 360)
  rw [hturn] at hremainder
  rw [azimuth, hremainder.toRat_eq]
  refine ⟨hremainder.isFinite ?_, hnonneg, hlt⟩
  rw [abs_of_nonneg hnonneg, ← hturn]
  exact (hturn ▸ hlt).trans (abs_lt.1 (isFinite_iff.1 isFinite_degrees).2).2

/-- **A wind is labelled with the multiple of five degrees that is closest to its azimuth,** a
half going up.  The azimuth is in `[0, 360)`, but the multiple is below 360 if and only if the
azimuth is below 357.5. -/
theorem label_direction (units : Units) :
    0.0 ≤ w.azimuth trig ∧ w.azimuth trig < 360.0 ∧
      ∃ j ≤ 72, w.label trig units = w.multipleLabel units j ∧
        (j : ℤ) = ⌊toRat (w.azimuth trig) / 5 + 1 / 2⌋ ∧
        (j < 72 ↔ w.azimuth trig < 357.5) := by
  obtain ⟨hfinite, hlow, hhigh⟩ := azimuth_mem htrig heast hnorth
  have hnum := notNaN_of_isFinite hfinite
  obtain ⟨j, hj, hvalue, hworth⟩ := nearest_fifth_worth hfinite hlow hhigh
  refine ⟨le_iff.2 ⟨zero_worth.notNaN, hnum, by rwa [zero_worth.toRat_eq]⟩,
    lt_iff.2 ⟨hnum, degrees_worth.notNaN, by rwa [degrees_worth.toRat_eq]⟩,
    j, hj, ?_, hvalue, ?_⟩
  · have hdegrees := hworth.isFinite
      (rounded_intCast (n := (5 * j : ℕ)) (by rw [Int.abs_eq_natAbs]; omega)).2
    rw [label, roundedBearing, ← azimuth, hworth.toFixed_zero hdegrees, multipleLabel]
  · -- From 357.5 on the nearest multiple is the whole turn.
    have hlt : w.azimuth trig < 357.5 ↔ toRat (w.azimuth trig) < 715 / 2 := by
      rw [lt_iff, lastHalf_worth.toRat_eq]
      exact ⟨fun h => h.2.2, fun h => ⟨hnum, lastHalf_worth.notNaN, h⟩⟩
    rw [hlt, ← Int.ofNat_lt, hvalue, Int.floor_lt]
    push_cast
    constructor <;> intro h <;> linarith

end

/-- A wind from the west is labelled with 270 degrees. -/
theorem label_direction_westerly :
    let trig : Trigonometry := ⟨fun _ => 0.0, fun _ => 1.0, fun _ _ => -1.5707963267948966⟩
    let w : Wind := ⟨5.0, 0.0, 5.0⟩
    trig.WithinHalfTurn ∧ w.eastward.isFinite = true ∧ w.northward.isFinite = true ∧
      w.label trig (.metersPerSecond 1) = w.multipleLabel (.metersPerSecond 1) 54 := by
  intro trig w
  have htrig : trig.WithinHalfTurn := ⟨fun _ _ _ _ => (by decide +kernel :
    -halfTurn ≤ -1.5707963267948966 ∧ -1.5707963267948966 ≤ halfTurn)⟩
  have heast : w.eastward.isFinite = true := by decide
  have hnorth : w.northward.isFinite = true := by decide
  obtain ⟨-, -, j, -, hlabel, hj, -⟩ := label_direction htrig heast hnorth (.metersPerSecond 1)
  have hazimuth : Worth (w.azimuth trig) (270 : ℤ) :=
    literal_worth (by norm_num) (by decide +kernel)
  have hvalue : j = 54 := by
    rw [hazimuth.toRat_eq] at hj
    norm_num at hj
    exact_mod_cast hj
  exact ⟨htrig, heast, hnorth, hvalue ▸ hlabel⟩

/-- The angles of two winds, one from the north and one from a little west of it. -/
def nearNorth : Trigonometry :=
  ⟨fun _ => 0.0, fun _ => 1.0, fun y _ => if y == -0.1 then -0.01999733397315053 else -0.0⟩

/-- **A wind from a little west of north is labelled with 360 degrees,** which is no multiple
below a full turn. -/
theorem not_label_lt :
    ¬ ∀ (trig : Trigonometry) (w : Wind) (units : Units), trig.WithinHalfTurn →
      w.eastward.isFinite = true → w.northward.isFinite = true →
        ∃ j < 72, w.label trig units = w.multipleLabel units j := by
  intro h
  have htrig : nearNorth.WithinHalfTurn := by
    refine ⟨fun y x _ _ => ?_⟩
    dsimp only [nearNorth]
    split_ifs <;> decide +kernel
  let w : Wind := ⟨0.1, -5.0, 5.0⟩
  obtain ⟨j, hj, hlabel⟩ := h nearNorth w (.metersPerSecond 1) htrig (by decide +kernel)
    (by decide +kernel)
  have hturn : w.label nearNorth (.metersPerSecond 1) = "360° @ 5.0" := by decide +kernel
  have hbelow : ∀ j < 72, "360° @ 5.0" ≠ w.multipleLabel (.metersPerSecond 1) j := by
    decide +kernel
  exact hbelow j hj (hturn ▸ hlabel)

/-- A wind from the north itself is labelled with 0 degrees. -/
example : label nearNorth ⟨0.0, -5.0, 5.0⟩ (.metersPerSecond 1) = "0° @ 5.0" := by
  decide +kernel

end Wind

end GlobeView

/-
# The fade of the extended spectrum

Beyond its boundary the extended spectrum is a ramp from the last color of the
spectrum to white, at the proportion of the sample between the boundary and 1
(`Sinebow.extended_eq_ramp`).  Boundary and 1 are at a finite distance, so samples
in order are at positions in order, and 1 is at the end of the ramp.  The last color
is inside the gamut, so no difference to white overflows and the ramp rises in every
channel, and what holds of ramps that rise, rounding or not, holds of the fade
(`Ramp.respects_le`).

At the boundary itself the sample is divided by itself, so the spectrum ends with the
color that the fade begins with.
-/

import GlobeView.Proofs.Scale.Gamut
import GlobeView.Proofs.Scale.Monotone

namespace GlobeView

open Exact

/-- Every channel of a color in the gamut is in the gamut. -/
theorem Rgb.InGamut.primary {c : Rgb} (h : c.InGamut) (k : Primary) : (c.primary k).InGamut := by
  cases k
  · exact h.red
  · exact h.green
  · exact h.blue

namespace Sinebow

variable {trig : Trigonometry} {i : Float}

/-- The color that the spectrum ends with, and the fade begins with. -/
def last (trig : Trigonometry) : Rgb :=
  (color trig 1.0 0.0).rgb

/-- White has the greatest channel of the gamut three times. -/
theorem toInt_primary_white (k : Primary) : (white.primary k).toInt = 255 := by
  cases k <;> rfl

/-- The fade runs from the boundary to one, which are at a finite distance. -/
theorem spanned_boundary : Spanned boundary 1.0 where
  finite_low := boundary_finite
  finite_high := one_finite
  lt := (lt_iff.1 (by decide : boundary < 1.0)).2.2
  width := by decide

/-- The spectrum ends where the fade begins. -/
theorem extended_boundary (trig : Trigonometry) (alpha : Float) :
    extended trig boundary alpha = color trig 1.0 alpha := by
  have hself : boundary / boundary = 1.0 := by decide +kernel
  rw [extended, if_pos (by decide), hself]

/-- **Beyond the boundary and up to 1, the extended spectrum is a ramp.** -/
theorem extended_eq_ramp (hi : boundary < i) (h1 : i ≤ 1.0) (alpha : Float) :
    extended trig i alpha
      = Ramp.color ⟨last trig, white⟩ (proportion i boundary 1.0) alpha := by
  have hbeyond : ¬ i ≤ boundary := fun h => (lt_iff.1 hi).2.2.not_ge (le_iff.1 h).2.2
  rw [extended, if_neg hbeyond, proportion, clamp_of_lt_of_le hi h1]
  rfl

/-- The spectrum ends inside the gamut. -/
theorem inGamut_last (htrig : trig.Bounded) : (last trig).InGamut :=
  inGamut_color htrig 1.0 0.0

/-- At 1 the fade has reached white. -/
theorem extended_one (htrig : trig.Bounded) (alpha : Float) :
    extended trig 1.0 alpha = white.withAlpha alpha := by
  have hnum := one_worth.notNaN
  have hfits : Ramp.Fits ⟨last trig, white⟩ :=
    Ramp.fits_of_inGamut (inGamut_last htrig) white_inGamut
  rw [extended_eq_ramp (by decide) (by decide)]
  exact (Ramp.color_one_iff (spanned_boundary.proportion_position hnum)
    (spanned_boundary.proportion_of_high_le hnum le_rfl) alpha).2 hfits

/-- No channel of the last color is above that of white. -/
theorem last_le_white (htrig : trig.Bounded) (k : Primary) :
    ((last trig).primary k).toInt ≤ (white.primary k).toInt := by
  rw [toInt_primary_white]
  exact ((inGamut_last htrig).primary k).2

/-- **The fade sets out from the end of the spectrum, rises in every channel and arrives at
white.**  For samples in order beyond the boundary and up to 1, no channel is below that of the
spectrum's end, falls, or exceeds 255.  At the boundary the two pieces meet, at 1 the color is
white, and the alpha is always the given one. -/
theorem extended_fades (htrig : trig.Bounded) (alpha : Float) :
    (∀ i j : Float, boundary < i → i ≤ j → j ≤ 1.0 → ∀ k : Primary,
      ((color trig 1.0 alpha).rgb.primary k).toInt
          ≤ ((extended trig i alpha).rgb.primary k).toInt ∧
        ((extended trig i alpha).rgb.primary k).toInt
          ≤ ((extended trig j alpha).rgb.primary k).toInt ∧
        ((extended trig j alpha).rgb.primary k).toInt ≤ 255) ∧
      extended trig boundary alpha = color trig 1.0 alpha ∧
      extended trig 1.0 alpha = white.withAlpha alpha ∧
      ∀ i : Float, (extended trig i alpha).alpha = alpha := by
  refine ⟨fun i j hi hij hj k => ?_, extended_boundary trig alpha, extended_one htrig alpha,
    fun i => alpha_extended trig i alpha⟩
  obtain ⟨hinum, hjnum, hle⟩ := le_iff.1 hij
  have hi1 : i ≤ 1.0 := Trans.trans hij hj
  have hj0 : boundary < j :=
    lt_iff.2 ⟨(lt_iff.1 hi).1, hjnum, (lt_iff.1 hi).2.2.trans_le hle⟩
  -- Both ends of the ramp are in the gamut, so their differences fit in 32 bits.
  have hnear := ((inGamut_last htrig).primary k).near (white_inGamut.primary k)
  have hrise := last_le_white htrig k
  have hpi := spanned_boundary.proportion_position hinum
  have hpj := spanned_boundary.proportion_position hjnum
  -- Both samples are on the ramp from the last color to white, where no channel falls.
  rw [extended_eq_ramp hi hi1, extended_eq_ramp hj0 hj, Ramp.primary_color, Ramp.primary_color,
    ← toInt_primary_white k]
  exact ⟨Ramp.respects_le.start hnear hrise hpi,
    Ramp.respects_le.along hnear hrise hpi hpj (spanned_boundary.proportion_mono hinum hjnum hle),
    Ramp.respects_le.stop hnear hrise hpj⟩

/-- Halfway to white and close to it. -/
theorem extended_fades_halfway :
    let trig := ScaleDefinition.lastAngle
    (extended trig 0.725 1.0).green.toInt = 127 ∧
      (color trig 1.0 1.0).green.toInt ≤ (extended trig 0.725 1.0).green.toInt ∧
      (extended trig 0.725 1.0).green.toInt ≤ (extended trig 0.99 1.0).green.toInt ∧
      (extended trig 0.99 1.0).green.toInt ≤ 255 := by
  intro trig
  have hsin : IsRatio (-0.7071067811865475) := .inr (by decide)
  have hcos : IsRatio (-0.7071067811865477) := .inr (by decide)
  have htrig : trig.Bounded := ⟨fun _ => hsin, fun _ => hcos⟩
  have h := (extended_fades htrig 1.0).1 0.725 0.99 (by decide) (by decide) (by decide) .green
  exact ⟨by decide +kernel, h⟩

end Sinebow

end GlobeView

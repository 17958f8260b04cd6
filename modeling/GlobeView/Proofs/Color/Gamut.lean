/-
# Colors inside the gamut

A channel is inside the gamut when it is in `[0, 255]`.  A channel is the floor
of a double, and NaN gives 0, so a channel is inside the gamut as soon as its
double is NaN or a number in `[0, 255]` (`Channel.inGamut_ofFloor`).

A ramp stays between its ends for every position in `[0, 1]`
(`Ramp.channelAt_between`), so it stays inside the gamut when they are.  The
spectra stay inside for every hue as long as sines and cosines are in `[-1, 1]` or
NaN; the extended one fades along a ramp beyond its boundary, so its samples must
not be greater than 1.
-/

import GlobeView.Color.Sinebow
import GlobeView.Proofs.Color.Ramp

namespace GlobeView

open Exact

/-! ### Channels -/

namespace Channel

/-- The channel is in `[0, 255]`. -/
def InGamut (c : Channel) : Prop :=
  0 ≤ c.toInt ∧ c.toInt ≤ 255

/-- **NaN and the numbers in `[0, 255]` give channels inside the gamut.** -/
theorem inGamut_ofFloor {x : Float} (h : x.isNaN = false → 0 ≤ toRat x ∧ toRat x ≤ 255) :
    (ofFloor x).InGamut := by
  -- NaN is converted to zero, which is in the gamut.
  cases hx : x.isNaN with
  | true =>
    have hzero := toInt_ofFloor_of_isNaN hx
    exact ⟨by omega, by omega⟩
  | false =>
    obtain ⟨hlo, hhi⟩ := h hx
    have hlo' : ((0 : ℤ) : ℚ) ≤ toRat x := by simpa using hlo
    have hhi' : toRat x ≤ (255 : ℤ) := by simpa using hhi
    obtain ⟨heq, hmem⟩ := toInt_ofFloor_eq hx (by norm_num) (by norm_num) hlo' hhi'
    rwa [InGamut, heq]

/-- Channels inside the gamut are near, so ramps inside it never overflow. -/
theorem InGamut.near {a b : Channel} (ha : a.InGamut) (hb : b.InGamut) : a.Near b := by
  obtain ⟨ha0, ha1⟩ := ha
  obtain ⟨hb0, hb1⟩ := hb
  exact ⟨by omega, by omega⟩

/-- Inside the gamut, the byte of a channel is the channel. -/
theorem InGamut.toNat_toByte {c : Channel} (h : c.InGamut) : (c.toByte.toNat : ℤ) = c.toInt := by
  obtain ⟨hlo, hhi⟩ := h
  have hwithin : within 0 255 c.toInt = c.toInt := by
    unfold within
    omega
  rw [toByte, hwithin, UInt8.toNat_ofNat']
  omega

end Channel

/-- All channels are in `[0, 255]`. -/
structure Rgb.InGamut (c : Rgb) : Prop where
  red : c.red.InGamut
  green : c.green.InGamut
  blue : c.blue.InGamut

/-- All channels are in `[0, 255]`, whatever the alpha. -/
def Rgba.InGamut (c : Rgba) : Prop :=
  c.rgb.InGamut

/-! ### Ramps -/

namespace Ramp

/-- A ramp inside the gamut stays there for every fraction, and for NaN. -/
theorem inGamut_channelAt {a b : Channel} (ha : a.InGamut) (hb : b.InGamut) {t : Float}
    (ht : Fraction t) : (channelAt a b t).InGamut := by
  have hnear := ha.near hb
  obtain ⟨ha0, ha1⟩ := ha
  obtain ⟨hb0, hb1⟩ := hb
  -- A channel at NaN is zero, and any other one lies between those of the ends.
  cases hnum : t.isNaN with
  | true =>
    have hzero := toInt_channelAt_of_isNaN a b hnum
    exact ⟨by omega, by omega⟩
  | false =>
    obtain ⟨hlow, hhigh⟩ := channelAt_between hnear (ht.position hnum)
    exact ⟨by omega, by omega⟩

/-- A ramp between colors of the gamut can be made in every program. -/
theorem fits_of_inGamut {r : Ramp} (hstart : r.start.InGamut) (hstop : r.stop.InGamut) :
    r.Fits where
  red := hstart.red.near hstop.red
  green := hstart.green.near hstop.green
  blue := hstart.blue.near hstop.blue

/-- All channels of a ramp between colors of the gamut are inside it. -/
theorem inGamut_color {r : Ramp} (hstart : r.start.InGamut) (hstop : r.stop.InGamut) {t : Float}
    (ht : Fraction t) (alpha : Float) : (r.color t alpha).InGamut :=
  ⟨inGamut_channelAt hstart.red hstop.red ht, inGamut_channelAt hstart.green hstop.green ht,
    inGamut_channelAt hstart.blue hstop.blue ht⟩

end Ramp

/-! ### Spectra -/

/-- The double is NaN or in `[-1, 1]`. -/
def IsRatio (x : Float) : Prop :=
  x.isNaN = true ∨ (-1.0 ≤ x ∧ x ≤ 1.0)

/-- Sines and cosines are in `[-1, 1]`, or NaN. -/
structure Trigonometry.Bounded (trig : Trigonometry) : Prop where
  sin : ∀ x, IsRatio (trig.sin x)
  cos : ∀ x, IsRatio (trig.cos x)

/-- A ratio that is a number is worth one in `[-1, 1]`. -/
theorem IsRatio.mem {x : Float} (h : IsRatio x) (hx : x.isNaN = false) :
    -1 ≤ toRat x ∧ toRat x ≤ 1 := by
  rcases h with hnan | ⟨hlow, hhigh⟩
  · rw [hnan] at hx
    cases hx
  · have hlow := (le_iff.1 hlow).2.2
    have hhigh := (le_iff.1 hhigh).2.2
    rw [(neg_worth one_worth.notNaN).toRat_eq, one_worth.toRat_eq] at hlow
    rw [one_worth.toRat_eq] at hhigh
    exact ⟨hlow, hhigh⟩

/-- The negative of a sine or cosine is at most 1. -/
theorem IsRatio.neg_le {x : Float} (h : IsRatio x) (hx : (-x).isNaN = false) :
    toRat (-x) ≤ 1 := by
  cases hnum : x.isNaN with
  | true =>
    rw [isNaN_neg hnum] at hx
    cases hx
  | false =>
    have := (h.mem hnum).1
    rw [(neg_worth hnum).toRat_eq]
    linarith

namespace Sinebow

/-- The larger of zero and a number of at most 1, or of zero alone. -/
theorem fraction_maximum_zero {x : Float} (hx : x.isNaN = false → toRat x ≤ 1) :
    (maximum x 0.0).isNaN = false ∧ Fraction (maximum x 0.0) := by
  -- The maximum passes over NaN, so it is a number in any case.
  cases hnum : x.isNaN with
  | true =>
    rw [maximum_of_isNaN_left hnum]
    refine ⟨zero_worth.notNaN, ?_⟩
    intro _
    rw [zero_worth.toRat_eq]
    norm_num
  | false =>
    have hmax := maximum_worth hnum zero_worth.notNaN
    rw [zero_worth.toRat_eq] at hmax
    refine ⟨hmax.notNaN, ?_⟩
    intro _
    rw [hmax.toRat_eq]
    exact ⟨le_max_right _ _, max_le (hx hnum) zero_le_one⟩

/-- The larger of a fraction and a number of at most 1. -/
theorem fraction_maximum {x y : Float} (hx : x.isNaN = false) (hfraction : Fraction x)
    (hy : y.isNaN = false → toRat y ≤ 1) : Fraction (maximum x y) := by
  intro _
  obtain ⟨h0, h1⟩ := hfraction hx
  cases hnum : y.isNaN with
  | true =>
    rw [maximum_of_isNaN_right hx hnum]
    exact ⟨h0, h1⟩
  | false =>
    rw [(maximum_worth hx hnum).toRat_eq]
    exact ⟨h0.trans (le_max_left _ _), max_le h1 (hy hnum)⟩

/-- The channel of a fraction is inside the gamut. -/
theorem inGamut_channel {x : Float} (hx : Fraction x) : (channel x).InGamut := by
  refine Channel.inGamut_ofFloor ?_
  intro hnum
  cases hx' : x.isNaN with
  | true =>
    rw [isNaN_mul_left hx'] at hnum
    cases hnum
  | false =>
    obtain ⟨h0, h1⟩ := hx hx'
    -- Rounding cannot take the product out of `[0, 255]`, whose ends are doubles.
    have hscale : Worth 255.0 (255 : ℤ) := literal_worth (by norm_num) rfl
    have hround := rounded_intCast (n := 255) (by norm_num)
    have hproduct := mul_worth (hx.position hx').isFinite (hscale.isFinite hround.2)
    rw [hscale.toRat_eq] at hproduct
    rw [hproduct.toRat_eq]
    push_cast at hround ⊢
    exact rounded_mem rounded_zero hround.1 (by linarith) (by linarith)

/-- **The spectrum is inside the gamut for every hue.** -/
theorem inGamut_color {trig : Trigonometry} (htrig : trig.Bounded) (hue alpha : Float) :
    (color trig hue alpha).InGamut := by
  have hs (angle : Float) := htrig.sin angle
  have hc (angle : Float) := htrig.cos angle
  refine ⟨inGamut_channel ?_, inGamut_channel ?_, inGamut_channel ?_⟩
  · exact (fraction_maximum_zero (hc _).neg_le).2
  · exact (fraction_maximum_zero fun h => ((hs _).mem h).2).2
  · obtain ⟨hnum, hfraction⟩ := fraction_maximum_zero fun h => ((hc _).mem h).2
    exact fraction_maximum hnum hfraction (hs _).neg_le

/-- The boundary is a finite double. -/
theorem boundary_finite : boundary.isFinite = true := by decide

/-- The end of the fade is a finite double. -/
theorem one_finite : (1.0 : Float).isFinite = true := by decide

/-- White is inside the gamut. -/
theorem white_inGamut : white.InGamut := by
  refine ⟨⟨?_, ?_⟩, ⟨?_, ?_⟩, ⟨?_, ?_⟩⟩ <;> decide

/-- **The extended spectrum is inside the gamut up to 1.** -/
theorem inGamut_extended {trig : Trigonometry} (htrig : trig.Bounded) {i : Float}
    (hi : ¬ 1.0 < i) (alpha : Float) : (extended trig i alpha).InGamut := by
  unfold extended
  split
  · exact inGamut_color htrig _ alpha
  · rename_i hbeyond
    have hlast : (color trig 1.0 0.0).rgb.InGamut := inGamut_color htrig 1.0 0.0
    refine Ramp.inGamut_color hlast white_inGamut ?_ alpha
    -- On the fade the sample is NaN, or between the boundary and one.
    cases hnum : i.isNaN with
    | true =>
      intro h
      rw [isNaN_div_left (isNaN_sub_left hnum _)] at h
      cases h
    | false =>
      have hbnum := notNaN_of_isFinite boundary_finite
      have hle : toRat i ≤ toRat 1.0 :=
        not_lt.1 fun h => hi (lt_iff.2 ⟨one_worth.notNaN, hnum, h⟩)
      have hge : toRat boundary ≤ toRat i :=
        (not_le.1 fun h => hbeyond (le_iff.2 ⟨hnum, hbnum, h⟩)).le
      exact sub_div_sub_fraction boundary_finite one_finite hnum hge hle

end Sinebow

end GlobeView

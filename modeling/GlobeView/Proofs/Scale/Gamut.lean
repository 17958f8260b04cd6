/-
# Scales inside the gamut

The colors of a scale are inside the gamut, whatever definition it was built
from and whatever is sampled, NaN and the infinities too
(`ScaleDefinition.build_inGamut`):

* outside its domain a segmented scale has the color of a breakpoint, and inside
  the color of a ramp between two of them at a proportion of the sample;
* a spectrum with bounds is taken at the proportion of the sample;
* the proportion is a fraction or NaN.

The extended spectrum without bounds is taken at the sample itself, and leaves
the gamut beyond 1.
-/

import GlobeView.Proofs.Color.Gamut
import GlobeView.Proofs.Scale.Segmented
import GlobeView.Scale.Definition

namespace GlobeView

open Exact

/-! ### Segmented scales -/

namespace SegmentedScale

/-- The segment that decides a color is one of the segments. -/
theorem mem_of_segmentFor {s : SegmentedScale} {point : Float} {segment : Segment}
    (h : s.segmentFor point = some segment) : segment ∈ s.segments := by
  rcases Option.or_eq_some_iff.1 h with h | ⟨-, h⟩
  · exact List.mem_of_find?_eq_some h
  · exact List.mem_of_getLast? h

section

variable {points : List Breakpoint} {s : SegmentedScale}

/-- The bounds of a segment are finite and do not decrease, and its ramp runs between
the colors of breakpoints. -/
theorem Through.segment (h : Through points s) {segment : Segment} (hmem : segment ∈ s.segments) :
    segment.low.isFinite = true ∧ segment.high.isFinite = true ∧
      toRat segment.low ≤ toRat segment.high ∧
      (∃ p ∈ points, segment.ramp.start = p.color) ∧ ∃ p ∈ points, segment.ramp.stop = p.color := by
  rw [h.segments] at hmem
  obtain ⟨⟨p, q⟩, hw, rfl⟩ := List.mem_map.1 hmem
  obtain ⟨hp, hq⟩ := mem_of_mem_neighbours hw
  have hlow := h.finite p hp
  have hhigh := h.finite q hq
  refine ⟨hlow, hhigh, not_lt.1 fun hlt => ?_, ⟨p, hp, rfl⟩, q, hq, rfl⟩
  exact h.ordered _ hw (lt_iff.2 ⟨notNaN_of_isFinite hhigh, notNaN_of_isFinite hlow, hlt⟩)

/-- **A scale through colors of the gamut stays inside it.** -/
theorem Through.inGamut_color (h : Through points s) (hcolors : ∀ p ∈ points, p.color.InGamut)
    (point alpha : Float) : (s.color point alpha).InGamut := by
  have hfirst : s.first.color.InGamut := hcolors _ (List.mem_of_head? h.first)
  have hlast : s.last.color.InGamut := hcolors _ (List.mem_of_getLast? h.last)
  unfold color
  split
  · exact hfirst
  split
  · exact hlast
  split
  · -- A segment begins and ends at breakpoints, so its ramp is between colors of the gamut.
    rename_i segment hsegment
    obtain ⟨hlow, hhigh, hle, ⟨p, hp, hstart⟩, q, hq, hstop⟩ :=
      h.segment (mem_of_segmentFor hsegment)
    refine Ramp.inGamut_color ?_ ?_ (proportion_fraction hlow hhigh hle point) alpha
    · rw [hstart]
      exact hcolors p hp
    · rw [hstop]
      exact hcolors q hq
  · exact hlast

/-- A segmented scale passes the alpha through. -/
theorem alpha_color (s : SegmentedScale) (point alpha : Float) :
    (s.color point alpha).alpha = alpha := by
  unfold color
  split_ifs
  · rfl
  · rfl
  · split <;> rfl

end

end SegmentedScale

/-! ### Definitions -/

/-- The extended sinebow passes the alpha through, on both of its parts. -/
theorem Sinebow.alpha_extended (trig : Trigonometry) (i alpha : Float) :
    (Sinebow.extended trig i alpha).alpha = alpha := by
  unfold Sinebow.extended
  split_ifs <;> rfl

namespace ScaleDefinition

/-- The colors of the breakpoints are inside the gamut. -/
def InGamut : ScaleDefinition → Prop
  | segmented _ segments => ∀ p ∈ segments, p.color.InGamut
  | _ => True

/-- The scale of a segmented definition is a segmented scale. -/
theorem build_segmented_eq_ok {trig : Trigonometry} {units : Option String}
    {segments : List Breakpoint} {scale : ColorScale}
    (h : (segmented units segments).build trig = .ok scale) :
    ∃ s, SegmentedScale.build segments = .ok s ∧ scale = s.color := by
  rw [build] at h
  -- A fault is passed on, so there was none.
  cases hs : SegmentedScale.build segments with
  | error fault =>
    rw [hs] at h
    cases h
  | ok s =>
    rw [hs] at h
    cases h
    exact ⟨s, rfl, rfl⟩

/-- The scale of a spectrum is the spectrum, or the spectrum of the proportion. -/
theorem overBounds_eq_ok {spectrum scale : ColorScale} {bounds : Option Bounds}
    (h : overBounds spectrum bounds = .ok scale) :
    (bounds = none ∧ scale = spectrum) ∨
      ∃ b, bounds = some b ∧ b.low.isFinite = true ∧ b.high.isFinite = true ∧ b.low < b.high ∧
        scale = fun point alpha => spectrum (proportion point b.low b.high) alpha := by
  cases bounds with
  | none =>
    cases h
    exact .inl ⟨rfl, rfl⟩
  | some b =>
    refine .inr ⟨b, rfl, ?_⟩
    rw [overBounds, checkBounds] at h
    -- Only bounds that pass the check are used.
    split at h
    · rename_i hvalid
      simp only [Bool.and_eq_true, decide_eq_true_eq] at hvalid
      cases h
      exact ⟨hvalid.1.1, hvalid.1.2, hvalid.2, rfl⟩
    · cases h

/-- Samples are taken at a fraction or NaN, so not beyond 1. -/
theorem not_one_lt_proportion {b : Bounds} (hlow : b.low.isFinite = true)
    (hhigh : b.high.isFinite = true) (hlt : b.low < b.high) (point : Float) :
    ¬ 1.0 < proportion point b.low b.high := by
  intro h
  obtain ⟨-, hnum, hone⟩ := lt_iff.1 h
  have := (proportion_fraction hlow hhigh (lt_iff.1 hlt).2.2.le point hnum).2
  rw [one_worth.toRat_eq] at hone
  linarith

/-- **Whatever is sampled, the color of a scale is inside the gamut,** its alpha is the
given one, and its bytes are its channels.  Only the extended spectrum without bounds
asks for a sample that is not greater than 1. -/
theorem build_inGamut {trig : Trigonometry} (htrig : trig.Bounded) {d : ScaleDefinition}
    (hd : d.InGamut) {scale : ColorScale} (hbuild : d.build trig = .ok scale)
    (point alpha : Float) (hpoint : d = .extendedSinebow none → ¬ 1.0 < point) :
    (scale point alpha).InGamut ∧ (scale point alpha).alpha = alpha ∧
      ((scale point alpha).toBytes[0].toNat : ℤ) = (scale point alpha).red.toInt ∧
      ((scale point alpha).toBytes[1].toNat : ℤ) = (scale point alpha).green.toInt ∧
      ((scale point alpha).toBytes[2].toNat : ℤ) = (scale point alpha).blue.toInt := by
  -- One case for every kind of scale, with and without bounds.
  have hcolor : (scale point alpha).InGamut ∧ (scale point alpha).alpha = alpha := by
    cases d with
    | segmented units segments =>
      obtain ⟨s, hs, rfl⟩ := build_segmented_eq_ok hbuild
      exact ⟨(SegmentedScale.through_of_build hs).inGamut_color hd point alpha,
        s.alpha_color point alpha⟩
    | sinebow bounds =>
      rcases overBounds_eq_ok hbuild with ⟨-, rfl⟩ | ⟨b, -, -, -, -, rfl⟩
      · exact ⟨Sinebow.inGamut_color htrig point alpha, rfl⟩
      · exact ⟨Sinebow.inGamut_color htrig _ alpha, rfl⟩
    | extendedSinebow bounds =>
      rcases overBounds_eq_ok hbuild with ⟨rfl, rfl⟩ | ⟨b, -, hlow, hhigh, hlt, rfl⟩
      · exact ⟨Sinebow.inGamut_extended htrig (hpoint rfl) alpha,
          Sinebow.alpha_extended trig point alpha⟩
      · exact ⟨Sinebow.inGamut_extended htrig (not_one_lt_proportion hlow hhigh hlt point) alpha,
          Sinebow.alpha_extended trig _ alpha⟩
  -- In the gamut a channel fits its byte.
  obtain ⟨hgamut, halpha⟩ := hcolor
  exact ⟨hgamut, halpha, hgamut.red.toNat_toByte, hgamut.green.toNat_toByte,
    hgamut.blue.toNat_toByte⟩

/-- The sine and cosine of the angle that the extended spectrum fades from, at every angle. -/
def lastAngle : Trigonometry :=
  ⟨fun _ => -0.7071067811865475, fun _ => -0.7071067811865477, fun _ _ => 0.0⟩

/-- At 1 the extended spectrum has reached white. -/
theorem inGamut_white :
    let white := Sinebow.extended lastAngle 1.0 128.0
    white = ⟨255, 255, 255, 128.0⟩ ∧ white.InGamut ∧ white.alpha = 128.0 ∧
      (white.toBytes[0].toNat : ℤ) = white.red.toInt ∧
      (white.toBytes[1].toNat : ℤ) = white.green.toInt ∧
      (white.toBytes[2].toNat : ℤ) = white.blue.toInt := by
  have hsin : IsRatio (-0.7071067811865475) := .inr (by decide)
  have hcos : IsRatio (-0.7071067811865477) := .inr (by decide)
  have htrig : lastAngle.Bounded := ⟨fun _ => hsin, fun _ => hcos⟩
  have h := build_inGamut htrig (d := .extendedSinebow none) trivial rfl 1.0 128.0
    (fun _ => by decide)
  exact ⟨by decide +kernel, h⟩

/-- Beyond 1 it has left the gamut. -/
example : (Sinebow.extended lastAngle 2.0 128.0).red = 391 := by decide +kernel

end ScaleDefinition

end GlobeView

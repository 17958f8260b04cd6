/-
# Scales that rise or fall

A channel of a segmented scale stays between its values at the breakpoints that
enclose the sample.  It rises with the sample if it rises along the breakpoints,
and falls if it falls there (`SegmentedScale.color_monotone`).  The differences of
adjacent values have to be finite, so that proportions are numbers, and those of
adjacent channels have to fit in 32 bits, so that ramps arrive at their ends.

Rising and falling are one argument about a relation that ramps respect
(`Ramp.Respects`), reflexive and transitive:

* two samples in one segment have positions in order on one ramp;
* between samples in different segments lie the end of the first segment and the
  start of the second, two breakpoints in order.
-/

import GlobeView.Proofs.Scale.Segmented

namespace GlobeView

open Exact

/-- The channels of a color, by name. -/
inductive Primary where
  | red
  | green
  | blue

/-- The channel of a given name. -/
def Rgb.primary (c : Rgb) : Primary → Channel
  | .red => c.red
  | .green => c.green
  | .blue => c.blue

/-- A ramp computes each channel by itself, and all of them alike. -/
theorem Ramp.primary_color (a b : Rgb) (t alpha : Float) (k : Primary) :
    (Ramp.color ⟨a, b⟩ t alpha).rgb.primary k = channelAt (a.primary k) (b.primary k) t := by
  cases k <;> rfl

namespace SegmentedScale

/-- Where a sample is, and its color there for every alpha. -/
inductive Located (points : List Breakpoint) (s : SegmentedScale) (p : Float) : Prop where
  | before (hfirst : p ≤ s.first.value) (hcolor : s.color p = s.first.color.withAlpha)
  | after (hfirst : ¬ p ≤ s.first.value) (hlast : s.last.value ≤ p)
      (hcolor : s.color p = s.last.color.withAlpha)
  | between (i : ℕ) (a b : Breakpoint) (hfirst : ¬ p ≤ s.first.value)
      (hlast : ¬ s.last.value ≤ p) (hencloses : Encloses points p i a b)
      (hcolor : s.color p
        = Ramp.color ⟨a.color, b.color⟩ (proportion p a.value b.value))

section

variable {points : List Breakpoint} {s : SegmentedScale} {p q : Float} {i j : ℕ}
  {a b : Breakpoint}

/-- The channels of the breakpoints around a sample are near if all adjacent ones are. -/
theorem Encloses.near {k : Primary} (hencloses : Encloses points p i a b)
    (hnear : points.IsChain fun a b => (a.color.primary k).Near (b.color.primary k)) :
    (a.color.primary k).Near (b.color.primary k) :=
  rel_next (r := fun a b : Breakpoint => (a.color.primary k).Near (b.color.primary k)) hnear
    hencloses.start hencloses.stop

namespace Through

/-- **A sample that is a number is before the first breakpoint, after the last, or enclosed.** -/
theorem located (h : Through points s) (hp : p.isNaN = false) : Located points s p := by
  by_cases hfirst : p ≤ s.first.value
  · exact .before hfirst (funext fun _ => if_pos hfirst)
  by_cases hlast : s.last.value ≤ p
  · refine .after hfirst hlast (funext fun alpha => ?_)
    rw [color, if_neg hfirst, if_pos hlast]
  · obtain ⟨i, a, b, hencloses⟩ := h.exists_encloses hp hfirst hlast
    exact .between i a b hfirst hlast hencloses
      (h.color_eq_of_encloses hencloses hfirst hlast).2

/-- If the values have finite differences, an enclosed sample has a position on its ramp. -/
theorem position (h : Through points s)
    (hwidth : points.IsChain fun a b => (b.value - a.value).isFinite = true)
    (hencloses : Encloses points p i a b) : Position (proportion p a.value b.value) :=
  (h.spanned hwidth hencloses).proportion_position (le_iff.1 hencloses.reached).1

variable {r : ℤ → ℤ → Prop} [Std.Refl r] [IsTrans ℤ r] {k : Primary}

/-- Breakpoints in order have channels in order. -/
theorem rel_points
    (hchain : points.IsChain fun a b => r (a.color.primary k).toInt (b.color.primary k).toInt)
    (ha : points[i]? = some a) (hb : points[j]? = some b) (hij : i ≤ j) :
    r (a.color.primary k).toInt (b.color.primary k).toInt :=
  rel_of_isChain (f := fun x : Breakpoint => (x.color.primary k).toInt) hchain ha hb hij

variable (h : Through points s)
  (hwidth : points.IsChain fun a b => (b.value - a.value).isFinite = true)
  (hnear : points.IsChain fun a b => (a.color.primary k).Near (b.color.primary k))
  (hr : Ramp.Respects r)
  (hchain : points.IsChain fun a b => r (a.color.primary k).toInt (b.color.primary k).toInt)

include h hwidth hnear hr hchain

/-- The channel of an enclosed sample is in order with those of the breakpoints around it. -/
theorem rel_enclosed (hencloses : Encloses points p i a b)
    (hcolor : s.color p = Ramp.color ⟨a.color, b.color⟩ (proportion p a.value b.value))
    (alpha : Float) :
    r (a.color.primary k).toInt ((s.color p alpha).rgb.primary k).toInt ∧
      r ((s.color p alpha).rgb.primary k).toInt (b.color.primary k).toInt := by
  have hends := rel_points hchain hencloses.start hencloses.stop i.le_succ
  have hposition := h.position hwidth hencloses
  have hab := hencloses.near hnear
  rw [hcolor, Ramp.primary_color]
  exact ⟨hr.start hab hends hposition, hr.stop hab hends hposition⟩

/-- **Samples in order have channels in order.** -/
theorem rel_color (hpq : p ≤ q) (alpha beta : Float) :
    r ((s.color p alpha).rgb.primary k).toInt ((s.color q beta).rgb.primary k).toInt := by
  obtain ⟨hp, hq, hle⟩ := le_iff.1 hpq
  -- The last index is not before any other.
  have hend {m : ℕ} {x : Breakpoint} (hx : points[m]? = some x) : m ≤ points.length - 1 :=
    Nat.le_sub_one_of_lt (List.getElem?_eq_some_iff.1 hx).1
  cases h.located hp with
  | before _ hp_color =>
    rw [hp_color]
    cases h.located hq with
    | before _ hq_color =>
      rw [hq_color]
      exact Std.Refl.refl _
    | after _ _ hq_color =>
      rw [hq_color]
      exact rel_points hchain h.getElem?_first h.getElem?_last (Nat.zero_le _)
    | between j c d _ _ hq_encloses hq_color =>
      have hstart := (h.rel_enclosed hwidth hnear hr hchain hq_encloses hq_color beta).1
      exact IsTrans.trans _ _ _
        (rel_points hchain h.getElem?_first hq_encloses.start j.zero_le) hstart
  | after hp_first hp_last hp_color =>
    have hq_last : s.last.value ≤ q := Trans.trans hp_last hpq
    rw [hp_color]
    cases h.located hq with
    | before hq_first _ => exact absurd (Trans.trans hpq hq_first) hp_first
    | after _ _ hq_color =>
      rw [hq_color]
      exact Std.Refl.refl _
    | between _ _ _ _ hq_last' _ _ => exact absurd hq_last hq_last'
  | between i a b hp_first _ hp_encloses hp_color =>
    have hstop := (h.rel_enclosed hwidth hnear hr hchain hp_encloses hp_color alpha).2
    cases h.located hq with
    | before hq_first _ => exact absurd (Trans.trans hpq hq_first) hp_first
    | after _ _ hq_color =>
      rw [hq_color]
      exact IsTrans.trans _ _ _ hstop
        (rel_points hchain hp_encloses.stop h.getElem?_last (hend hp_encloses.stop))
    | between j c d _ _ hq_encloses hq_color =>
      have hstart := (h.rel_enclosed hwidth hnear hr hchain hq_encloses hq_color beta).1
      -- In one segment the ramp keeps the order; between two segments the breakpoints do.
      rcases (h.index_le_of_encloses hp_encloses hq_encloses hpq).eq_or_lt with rfl | hlt
      · obtain rfl := Option.some.inj (hp_encloses.start.symm.trans hq_encloses.start)
        obtain rfl := Option.some.inj (hp_encloses.stop.symm.trans hq_encloses.stop)
        rw [hp_color, hq_color, Ramp.primary_color, Ramp.primary_color]
        exact hr.along (hp_encloses.near hnear)
          (rel_points hchain hp_encloses.start hp_encloses.stop i.le_succ)
          (h.position hwidth hp_encloses) (h.position hwidth hq_encloses)
          ((h.spanned hwidth hp_encloses).proportion_mono hp hq hle)
      · have hborder := rel_points hchain hp_encloses.stop hq_encloses.start hlt
        exact IsTrans.trans _ _ _ hstop (IsTrans.trans _ _ _ hborder hstart)

end Through

/-- **Between breakpoints, and monotone.**  If the differences of adjacent values are finite and
those of adjacent channels fit in 32 bits, every sample that is no NaN has the color of an end
outside the domain, and else the channel is between those of the two breakpoints that enclose it.
A channel that does not fall along the breakpoints does not fall with the sample, and one that does
not rise does not rise. -/
theorem color_monotone (hbuild : build points = .ok s)
    (hwidth : points.IsChain fun a b => (b.value - a.value).isFinite = true) (k : Primary)
    (hnear : points.IsChain fun a b => (a.color.primary k).Near (b.color.primary k)) :
    points.head? = some s.first ∧ points.getLast? = some s.last ∧
      (∀ p alpha, p.isNaN = false →
        (p ≤ s.first.value ∧ s.color p alpha = s.first.color.withAlpha alpha) ∨
        (s.last.value ≤ p ∧ s.color p alpha = s.last.color.withAlpha alpha) ∨
        ∃ i a b, Encloses points p i a b ∧
          min (a.color.primary k).toInt (b.color.primary k).toInt
            ≤ ((s.color p alpha).rgb.primary k).toInt ∧
          ((s.color p alpha).rgb.primary k).toInt
            ≤ max (a.color.primary k).toInt (b.color.primary k).toInt) ∧
      ((points.IsChain fun a b => (a.color.primary k).toInt ≤ (b.color.primary k).toInt) →
        ∀ p q alpha beta, p ≤ q → ((s.color p alpha).rgb.primary k).toInt
          ≤ ((s.color q beta).rgb.primary k).toInt) ∧
      ((points.IsChain fun a b => (a.color.primary k).toInt ≥ (b.color.primary k).toInt) →
        ∀ p q alpha beta, p ≤ q → ((s.color p alpha).rgb.primary k).toInt
          ≥ ((s.color q beta).rgb.primary k).toInt) := by
  -- Rising and falling channels differ in the relation only.
  have h := through_of_build hbuild
  refine ⟨h.first, h.last, fun p alpha hp => ?_,
    fun hchain p q alpha beta hpq =>
      h.rel_color hwidth hnear Ramp.respects_le hchain hpq alpha beta,
    fun hchain p q alpha beta hpq =>
      h.rel_color hwidth hnear Ramp.respects_ge hchain hpq alpha beta⟩
  -- Outside the domain the color is fixed; inside, one ramp decides all channels.
  cases h.located hp with
  | before hfirst hcolor => exact .inl ⟨hfirst, congrFun hcolor alpha⟩
  | after _ hlast hcolor => exact .inr (.inl ⟨hlast, congrFun hcolor alpha⟩)
  | between i a b _ _ hencloses hcolor =>
    refine .inr (.inr ⟨i, a, b, hencloses, ?_⟩)
    rw [hcolor, Ramp.primary_color]
    exact Ramp.channelAt_between (hencloses.near hnear)
      (h.position hwidth hencloses)

/-- Red rises and blue falls through four breakpoints, two of them at 1. -/
theorem color_monotone_rising_falling :
    let points : List Breakpoint := [⟨0.0, ⟨0, 90, 255⟩⟩, ⟨1.0, ⟨40, 10, 255⟩⟩,
      ⟨1.0, ⟨55, 90, 128⟩⟩, ⟨2.5, ⟨255, 0, 7⟩⟩]
    ∃ s, build points = .ok s ∧
      (s.color 0.3 1.0).red.toInt ≤ (s.color 1.7 1.0).red.toInt ∧
      (s.color 0.3 1.0).blue.toInt ≥ (s.color 1.7 1.0).blue.toInt := by
  intro points
  have hbuild : build points = .ok ⟨⟨0.0, ⟨0, 90, 255⟩⟩, ⟨2.5, ⟨255, 0, 7⟩⟩,
      (neighbours points).map segmentBetween⟩ := rfl
  have hwidth : points.IsChain fun a b => (b.value - a.value).isFinite = true := by decide
  obtain ⟨-, -, -, hred, -⟩ := color_monotone hbuild hwidth .red (by decide)
  obtain ⟨-, -, -, -, hblue⟩ := color_monotone hbuild hwidth .blue (by decide)
  exact ⟨_, hbuild, hred (by decide) 0.3 1.7 1.0 1.0 (by decide),
    hblue (by decide) 0.3 1.7 1.0 1.0 (by decide)⟩

end

end SegmentedScale

end GlobeView

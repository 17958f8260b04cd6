/-
# Which bounds give every sample a position

Bounds that are accepted are finite and in order, and samples are normalised into
them before a spectrum is asked for a color.  The difference of two finite doubles
may be infinite, and that alone decides (`checkBounds_locates`):

| difference | proportion of a sample that is no NaN |
| --- | --- |
| finite | in `[0, 1]`, 0 up to the lower bound, 1 from the upper one on, not falling |
| infinite | 0 or NaN, and NaN from the upper bound on |

Subnormal differences are no exception in the first row: distinct doubles have a
difference that is no zero.
-/

import GlobeView.Proofs.Number.Proportion
import GlobeView.Proofs.Scale.Validity

namespace GlobeView

open Exact

/-- The double is in `[0, 1]`, and so no NaN. -/
def InUnit (p : Float) : Prop :=
  0.0 ≤ p ∧ p ≤ 1.0

/-- Every sample that is no NaN has a position between the bounds. -/
structure Bounds.Locates (b : Bounds) : Prop where
  inUnit : ∀ x : Float, x.isNaN = false → InUnit (proportion x b.low b.high)
  eq_zero : ∀ x ≤ b.low, (proportion x b.low b.high == 0.0) = true
  eq_one : ∀ x : Float, b.high ≤ x → (proportion x b.low b.high == 1.0) = true
  mono : ∀ x y : Float, x ≤ y → proportion x b.low b.high ≤ proportion y b.low b.high

/-- A position lies between zero and one as a double does. -/
theorem Exact.Position.inUnit {p : Float} (h : Position p) : InUnit p := by
  constructor
  · refine le_iff.2 ⟨zero_worth.notNaN, h.notNaN, ?_⟩
    rw [zero_worth.toRat_eq]
    exact h.nonneg
  · refine le_iff.2 ⟨h.notNaN, one_worth.notNaN, ?_⟩
    rw [one_worth.toRat_eq]
    exact h.le_one

/-- **Bounds at a finite distance give every sample a position.** -/
theorem Exact.Spanned.locates {b : Bounds} (h : Spanned b.low b.high) : b.Locates where
  inUnit x hx := (h.proportion_position hx).inUnit
  eq_zero x hle := by
    obtain ⟨hx, -, hle⟩ := le_iff.1 hle
    rw [beq_iff, h.proportion_of_le_low hx hle, zero_worth.toRat_eq]
    exact ⟨(h.proportion_position hx).notNaN, zero_worth.notNaN, rfl⟩
  eq_one x hge := by
    obtain ⟨-, hx, hge⟩ := le_iff.1 hge
    rw [beq_iff, h.proportion_of_high_le hx hge, one_worth.toRat_eq]
    exact ⟨(h.proportion_position hx).notNaN, one_worth.notNaN, rfl⟩
  mono x y hle := by
    obtain ⟨hx, hy, hle⟩ := le_iff.1 hle
    exact le_iff.2 ⟨(h.proportion_position hx).notNaN, (h.proportion_position hy).notNaN,
      h.proportion_mono hx hy hle⟩

namespace Bounds.Valid

variable {b : Bounds} (h : b.Valid)

include h

/-- Bounds that are checked, and whose difference is finite, are spanned. -/
theorem spanned (hwidth : (b.high - b.low).isFinite = true) : Spanned b.low b.high :=
  ⟨h.finite_low, h.finite_high, (lt_iff.1 h.lt).2.2, hwidth⟩

/-- Bounds that are checked are in order. -/
theorem toRat_le : toRat b.low ≤ toRat b.high :=
  (lt_iff.1 h.lt).2.2.le

/-- From the upper bound on, samples lose their position if the difference is infinite. -/
theorem isNaN_of_high_le (hwidth : (b.high - b.low).isFinite = false) {x : Float}
    (hx : b.high ≤ x) : (proportion x b.low b.high).isNaN = true :=
  isNaN_proportion_of_high_le h.finite_low h.finite_high h.toRat_le hwidth (le_iff.1 hx).2.1
    (le_iff.1 hx).2.2

/-- Where the difference overflows, a position is zero or no number at all. -/
theorem isNaN_or_eq_zero (hwidth : (b.high - b.low).isFinite = false) (x : Float) :
    (proportion x b.low b.high).isNaN = true ∨ (proportion x b.low b.high == 0.0) = true := by
  refine (proportion_of_infinite_width h.finite_low h.finite_high h.toRat_le hwidth x).imp_right
    fun hzero => ?_
  rw [beq_iff, hzero.toRat_eq, zero_worth.toRat_eq]
  exact ⟨hzero.notNaN, zero_worth.notNaN, rfl⟩

/-- A difference that is infinite leaves the upper bound without a position. -/
theorem locates_iff : b.Locates ↔ (b.high - b.low).isFinite = true := by
  refine ⟨fun hlocates => ?_, fun hwidth => (h.spanned hwidth).locates⟩
  by_contra hwidth
  have hrefl : b.high ≤ b.high := by
    have hnum := notNaN_of_isFinite h.finite_high
    exact le_iff.2 ⟨hnum, hnum, le_rfl⟩
  have hnan := h.isNaN_of_high_le (Bool.eq_false_iff.2 hwidth) hrefl
  rw [(beq_iff.1 (hlocates.eq_one b.high hrefl)).1] at hnan
  cases hnan

end Bounds.Valid

namespace ScaleDefinition

/-- Bounds that pass the check are finite, distinct and in order. -/
theorem valid_of_checkBounds {b : Bounds} (h : checkBounds b = .ok b) : b.Valid := by
  by_contra hnot
  rw [checkBounds_of_not_valid hnot] at h
  cases h

/-- **Accepted bounds give every sample a position exactly if their difference is finite,** and a
spectrum over them is then asked for colors in `[0, 1]` only.  If the difference is infinite, the
proportion of every sample is 0 or NaN, and it is NaN from the upper bound on. -/
theorem checkBounds_locates {b : Bounds} (h : checkBounds b = .ok b) :
    (b.Locates ↔ (b.high - b.low).isFinite = true) ∧
      ((b.high - b.low).isFinite = true → ∀ spectrum : ColorScale,
        ∃ scale, overBounds spectrum (some b) = .ok scale ∧
          ∀ x alpha, x.isNaN = false →
            InUnit (proportion x b.low b.high) ∧
              scale x alpha = spectrum (proportion x b.low b.high) alpha) ∧
      ((b.high - b.low).isFinite = false →
        (∀ x, (proportion x b.low b.high).isNaN = true ∨
          (proportion x b.low b.high == 0.0) = true) ∧
        ∀ x, b.high ≤ x → (proportion x b.low b.high).isNaN = true) := by
  have hvalid := valid_of_checkBounds h
  -- Whether the difference is finite decides all three parts.
  refine ⟨hvalid.locates_iff, fun hwidth spectrum => ?_,
    fun hwidth => ⟨hvalid.isNaN_or_eq_zero hwidth, fun x => hvalid.isNaN_of_high_le hwidth⟩⟩
  refine ⟨fun x alpha => spectrum (proportion x b.low b.high) alpha, ?_, fun x alpha hx => ?_⟩
  · rw [overBounds, h]
    rfl
  · exact ⟨(hvalid.locates_iff.2 hwidth).inUnit x hx, rfl⟩

/-- Zero and the smallest double locate every sample. -/
theorem checkBounds_locates_smallest :
    let b : Bounds := ⟨0.0, 5e-324⟩
    checkBounds b = .ok b ∧ (b.high - b.low).isFinite = true ∧ b.Locates := by
  intro b
  have hcheck : checkBounds b = .ok b := by decide +kernel
  have hwidth : (b.high - b.low).isFinite = true := by decide +kernel
  exact ⟨hcheck, hwidth, (checkBounds_locates hcheck).1.2 hwidth⟩

/-- The lowest and the largest double are accepted as bounds, but the largest has no position
between them. -/
theorem not_locates_largest :
    let b : Bounds := ⟨-1.7976931348623157e308, 1.7976931348623157e308⟩
    checkBounds b = .ok b ∧ (proportion b.high b.low b.high).isNaN = true ∧ ¬ b.Locates := by
  intro b
  have hnan : (proportion b.high b.low b.high).isNaN = true := by decide +kernel
  refine ⟨by decide +kernel, hnan, fun h => ?_⟩
  have hone := (beq_iff.1 (h.eq_one b.high (by decide +kernel))).1
  rw [hnan] at hone
  cases hone

end ScaleDefinition

end GlobeView

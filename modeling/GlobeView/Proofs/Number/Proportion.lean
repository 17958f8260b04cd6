/-
# Proportions

`proportion x low high` divides two rounded differences.  For finite bounds that
do not decrease it is a fraction, a number in `[0, 1]`, or NaN (`proportion_fraction`):

* a NaN sample is clamped to `high`, every other one to a number between the
  bounds, so both differences are no NaN, and the first is at most the second,
  because rounding keeps the order;
* bounds so far apart that their difference is infinite give 0, or NaN when the
  other difference is infinite too;
* equal bounds give `0 / 0`, which is NaN.

Neither happens when the bounds are distinct and their difference is finite
(`Spanned`).  Distinct doubles have a difference that does not vanish, so the
proportion of a sample is then a number, grows with the sample, and is 0 at the
lower bound and 1 at the upper one.  If the difference is infinite, the upper bound
itself has no proportion (`isNaN_proportion_of_high_le`).

What is `NotAbove` zero may be an infinity, so its quotients and products may be
infinite or NaN, but they are not above zero either.
-/

import GlobeView.Number.Arithmetic
import GlobeView.Proofs.Number.Doubles

namespace GlobeView
namespace Exact

open Float.Model UnpackedFloat

/-- NaN, or a number in `[0, 1]`. -/
def Fraction (x : Float) : Prop :=
  x.isNaN = false → 0 ≤ toRat x ∧ toRat x ≤ 1

/-- A number in `[0, 1]`. -/
structure Position (x : Float) : Prop where
  notNaN : x.isNaN = false
  nonneg : 0 ≤ toRat x
  le_one : toRat x ≤ 1

/-- A fraction is NaN or a position. -/
theorem Fraction.position {x : Float} (h : Fraction x) (hx : x.isNaN = false) : Position x :=
  ⟨hx, (h hx).1, (h hx).2⟩

/-- A rounded number stays between doubles. -/
theorem rounded_mem {lo hi q : ℚ} (hlo : rounded lo = lo) (hhi : rounded hi = hi) (h : lo ≤ q)
    (h' : q ≤ hi) : lo ≤ rounded q ∧ rounded q ≤ hi := by
  have h₁ := rounded_mono h
  have h₂ := rounded_mono h'
  rw [hlo] at h₁
  rw [hhi] at h₂
  exact ⟨h₁, h₂⟩

/-- One is a double. -/
theorem rounded_one : rounded 1 = 1 := by
  have h := (rounded_intCast (n := 1) (by norm_num)).1
  rwa [Int.cast_one] at h

/-- One is far below the limit. -/
theorem one_lt_limit : 1 < limit := by
  have h := (rounded_intCast (n := 1) (by norm_num)).2
  rwa [Int.cast_one, abs_one] at h

/-- A position is at most one, and so finite. -/
theorem Position.isFinite {x : Float} (h : Position x) : x.isFinite = true := by
  refine isFinite_iff.2 ⟨h.notNaN, ?_⟩
  rw [abs_of_nonneg h.nonneg]
  exact h.le_one.trans_lt one_lt_limit

/-! ### Quotients -/

section

variable {x y : Float}

/-- What is no NaN and not finite is an infinity. -/
theorem exists_infinity (hx : x.isNaN = false) (hfinite : x.isFinite = false) :
    ∃ s, x.toModel.unpack = .infinity s := by
  have hsettled := settled hx
  change x.toModel.unpack.isFinite = false at hfinite
  cases h : x.toModel.unpack with
  | infinity s => exact ⟨s, rfl⟩
  | notANumber => exact absurd h (unpack_ne_notANumber hx)
  | zero s =>
    rw [h] at hfinite
    cases hfinite
  | finite s m e hm =>
    rw [h] at hfinite
    cases hfinite

/-- What is no NaN and worth zero is a zero. -/
theorem exists_zero (hx : x.isNaN = false) (hzero : toRat x = 0) :
    ∃ s, x.toModel.unpack = .zero s := by
  unfold toRat at hzero
  -- An infinity is worth the limit, and a mantissa is positive, so neither is zero.
  cases h : x.toModel.unpack with
  | infinity s =>
    rw [h, value_infinity, ← abs_eq_zero, abs_signed, abs_eq_zero] at hzero
    exact absurd hzero limit_pos.ne'
  | notANumber => exact absurd h (unpack_ne_notANumber hx)
  | zero s => exact ⟨s, rfl⟩
  | finite s m e hm =>
    have hpos : (0 : ℚ) < m * 2 ^ e := by positivity
    rw [h, value_finite, ← abs_eq_zero, abs_signed, abs_eq_zero] at hzero
    exact absurd hzero hpos.ne'

/-- Zero divided by zero is NaN. -/
theorem isNaN_zero_div_zero (hx : x.isNaN = false) (hy : y.isNaN = false) (hx0 : toRat x = 0)
    (hy0 : toRat y = 0) : (x / y).isNaN = true := by
  obtain ⟨s, hs⟩ := exists_zero hx hx0
  obtain ⟨t, ht⟩ := exists_zero hy hy0
  refine isNaN_of_eq_packed (div_eq_packed x y) ?_
  rw [hs, ht]
  rfl

/-- Infinities have no quotient, whatever their signs. -/
theorem isNaN_infinity_div_infinity {s t : Sign} (hx : x.toModel.unpack = .infinity s)
    (hy : y.toModel.unpack = .infinity t) : (x / y).isNaN = true := by
  refine isNaN_of_eq_packed (div_eq_packed x y) ?_
  rw [hx, hy]
  rfl

/-- An infinity divided by an infinity is NaN, and a finite double is worth nothing against it. -/
theorem div_infinity (hx : x.isNaN = false) {t : Sign} (hy : y.toModel.unpack = .infinity t) :
    (x / y).isNaN = true ∨ Worth (x / y) 0 := by
  have hzero {s : Sign} (h : x / y = packed (.zero s)) : Worth (x / y) 0 := by
    have hworth := (denotes_zero s rfl).worth
    rwa [← rounded, rounded_zero, ← h] at hworth
  cases h : x.toModel.unpack with
  | infinity s => exact .inl (isNaN_infinity_div_infinity h hy)
  | notANumber => exact absurd h (unpack_ne_notANumber hx)
  | zero s => exact .inr (hzero (by rw [div_eq_packed, h, hy]; rfl))
  | finite s m e hm => exact .inr (hzero (by rw [div_eq_packed, h, hy]; rfl))

/-- **A part divided by a whole is a fraction or NaN.** -/
theorem div_fraction (hx : x.isNaN = false) (hy : y.isNaN = false) (h0 : 0 ≤ toRat x)
    (hle : toRat x ≤ toRat y) : Fraction (x / y) := by
  intro hnum
  -- The quotient by an infinity is NaN or zero, and that of two zeros is NaN.
  cases hfinite : y.isFinite with
  | false =>
    obtain ⟨t, ht⟩ := exists_infinity hy hfinite
    rcases div_infinity hx ht with hnan | hzero
    · rw [hnan] at hnum
      cases hnum
    · rw [hzero.toRat_eq]
      norm_num
  | true =>
    rcases (h0.trans hle).eq_or_lt with hzero | hpos
    · rw [isNaN_zero_div_zero hx hy (by linarith) hzero.symm] at hnum
      cases hnum
    · have hlt := (isFinite_iff.1 hfinite).2
      -- The numerator is not above the denominator, so it is finite as well.
      have hx' : x.isFinite = true := by
        refine isFinite_iff.2 ⟨hx, ?_⟩
        rw [abs_of_nonneg h0]
        rw [abs_of_pos hpos] at hlt
        exact hle.trans_lt hlt
      rw [(div_worth hx' hfinite hpos.ne').toRat_eq]
      exact rounded_mem rounded_zero rounded_one (div_nonneg h0 hpos.le)
        ((div_le_one hpos).2 hle)

/-- **Between bounds, the part below a double is a fraction of the whole, or NaN.** -/
theorem sub_div_sub_fraction {low high : Float} (hlow : low.isFinite = true)
    (hhigh : high.isFinite = true) (hx : x.isNaN = false) (h : toRat low ≤ toRat x)
    (h' : toRat x ≤ toRat high) : Fraction ((x - low) / (high - low)) := by
  have hpart := sub_worth (isFinite_of_between hx hlow hhigh h h') hlow
  have hwhole := sub_worth hhigh hlow
  refine div_fraction hpart.notNaN hwhole.notNaN ?_ ?_
  · rw [hpart.toRat_eq, ← rounded_zero]
    exact rounded_mono (by linarith)
  · rw [hpart.toRat_eq, hwhole.toRat_eq]
    exact rounded_mono (by linarith)

end

/-! ### Clamping -/

/-- A sample that is no NaN is clamped as a number. -/
theorem clamp_worth {x low high : Float} (hx : x.isNaN = false) (hlow : low.isNaN = false)
    (hhigh : high.isNaN = false) :
    Worth (clamp x low high) (max (toRat low) (min (toRat x) (toRat high))) := by
  have hmin := minimum_worth hx hhigh
  have hmax := maximum_worth hlow hmin.notNaN
  rwa [hmin.toRat_eq] at hmax

/-- **Whatever is clamped, NaN too, the result is a number between the bounds.** -/
theorem clamp_mem {low high : Float} (hlow : low.isNaN = false) (hhigh : high.isNaN = false)
    (hle : toRat low ≤ toRat high) (x : Float) :
    (clamp x low high).isNaN = false ∧ toRat low ≤ toRat (clamp x low high) ∧
      toRat (clamp x low high) ≤ toRat high := by
  -- NaN is passed over by the minimum, which leaves the upper bound.
  cases hx : x.isNaN with
  | true =>
    have hmax := maximum_worth hlow hhigh
    rw [clamp, minimum_of_isNaN_left hx, hmax.toRat_eq, max_eq_right hle]
    exact ⟨hmax.notNaN, hle, le_rfl⟩
  | false =>
    have hclamp := clamp_worth hx hlow hhigh
    rw [hclamp.toRat_eq]
    exact ⟨hclamp.notNaN, le_max_left _ _, max_le hle (min_le_right _ _)⟩

/-- What is between the bounds is clamped to itself. -/
theorem clamp_of_lt_of_le {x low high : Float} (hlow : low < x) (hhigh : x ≤ high) :
    clamp x low high = x := by
  obtain ⟨hlnum, hx, -⟩ := lt_iff.1 hlow
  have hnot : ¬ high < x := fun h => (lt_iff.1 h).2.2.not_ge (le_iff.1 hhigh).2.2
  have hmin : minimum x high = x := by
    rw [minimum, if_neg (Bool.eq_false_iff.1 hx), if_neg hnot]
  rw [clamp, hmin, maximum, if_neg (Bool.eq_false_iff.1 hlnum), if_pos hlow]

/-- **The proportion of a sample is a fraction or NaN.** -/
theorem proportion_fraction {low high : Float} (hlow : low.isFinite = true)
    (hhigh : high.isFinite = true) (hle : toRat low ≤ toRat high) (x : Float) :
    Fraction (proportion x low high) := by
  obtain ⟨hnum, hmem, hmem'⟩ :=
    clamp_mem (notNaN_of_isFinite hlow) (notNaN_of_isFinite hhigh) hle x
  unfold proportion
  exact sub_div_sub_fraction hlow hhigh hnum hmem hmem'

/-! ### Bounds at a finite distance -/

/-- Finite bounds, distinct and in order, whose difference is finite too. -/
structure Spanned (low high : Float) : Prop where
  finite_low : low.isFinite = true
  finite_high : high.isFinite = true
  lt : toRat low < toRat high
  width : (high - low).isFinite = true

namespace Spanned

variable {low high x y : Float} (h : Spanned low high)

include h

/-- The width of the bounds is the rounded difference of the two. -/
theorem width_worth : Worth (high - low) (rounded (toRat high - toRat low)) :=
  sub_worth h.finite_high h.finite_low

/-- The bounds are doubles, so their difference does not vanish. -/
theorem width_pos : 0 < rounded (toRat high - toRat low) :=
  (isDouble_toRat h.finite_low).rounded_sub_pos (isDouble_toRat h.finite_high) h.lt

/-- **The proportion of a sample that is no NaN is a number:** two rounded differences,
divided and rounded. -/
theorem proportion_worth (hx : x.isNaN = false) :
    Worth (proportion x low high)
      (rounded (rounded (max (toRat low) (min (toRat x) (toRat high)) - toRat low)
        / rounded (toRat high - toRat low))) := by
  have hlow := notNaN_of_isFinite h.finite_low
  have hhigh := notNaN_of_isFinite h.finite_high
  -- The sample is held inside the bounds, so its distance is at most the width.
  have hclamp := clamp_worth hx hlow hhigh
  obtain ⟨hnum, hge, hle⟩ := clamp_mem hlow hhigh h.lt.le x
  have hpart := sub_worth
    (isFinite_of_between hnum h.finite_low h.finite_high hge hle) h.finite_low
  -- The part is not longer than the whole, so it is finite as well.
  have hpart_nonneg : 0 ≤ rounded (toRat (clamp x low high) - toRat low) := by
    rw [← rounded_zero]
    exact rounded_mono (by linarith)
  have hpart_le : rounded (toRat (clamp x low high) - toRat low)
      ≤ rounded (toRat high - toRat low) := rounded_mono (by linarith)
  have hlimit := (isFinite_iff.1 h.width).2
  rw [h.width_worth.toRat_eq, abs_of_pos h.width_pos] at hlimit
  have hfinite := hpart.isFinite (by
    rw [abs_of_nonneg hpart_nonneg]
    exact hpart_le.trans_lt hlimit)
  have hdiv := div_worth hfinite h.width (by
    rw [h.width_worth.toRat_eq]
    exact h.width_pos.ne')
  rwa [hpart.toRat_eq, h.width_worth.toRat_eq, hclamp.toRat_eq] at hdiv

/-- **Samples in order have proportions in order.** -/
theorem proportion_mono (hx : x.isNaN = false) (hy : y.isNaN = false) (hxy : toRat x ≤ toRat y) :
    toRat (proportion x low high) ≤ toRat (proportion y low high) := by
  rw [(h.proportion_worth hx).toRat_eq, (h.proportion_worth hy).toRat_eq]
  refine rounded_mono (div_le_div_of_nonneg_right ?_ h.width_pos.le)
  exact rounded_mono (sub_le_sub_right (max_le_max le_rfl (min_le_min hxy le_rfl)) _)

/-- Up to the lower bound the proportion is 0. -/
theorem proportion_of_le_low (hx : x.isNaN = false) (hle : toRat x ≤ toRat low) :
    toRat (proportion x low high) = 0 := by
  rw [(h.proportion_worth hx).toRat_eq, min_eq_left (hle.trans h.lt.le), max_eq_left hle, sub_self,
    rounded_zero, zero_div, rounded_zero]

/-- From the upper bound on the proportion is 1. -/
theorem proportion_of_high_le (hx : x.isNaN = false) (hge : toRat high ≤ toRat x) :
    toRat (proportion x low high) = 1 := by
  rw [(h.proportion_worth hx).toRat_eq, min_eq_right hge, max_eq_right h.lt.le,
    div_self h.width_pos.ne', rounded_one]

/-- A sample that is a number, infinite ones included, has a position between the bounds. -/
theorem proportion_position (hx : x.isNaN = false) : Position (proportion x low high) :=
  (proportion_fraction h.finite_low h.finite_high h.lt.le x).position
    (h.proportion_worth hx).notNaN

end Spanned

/-! ### Bounds too far apart -/

section

variable {low high x : Float} (hlow : low.isFinite = true) (hhigh : high.isFinite = true)
  (hle : toRat low ≤ toRat high) (hwidth : (high - low).isFinite = false)

include hlow hhigh hle hwidth

/-- A finite part of an infinite width is worth nothing, and an infinite one is NaN. -/
theorem proportion_of_infinite_width (x : Float) :
    (proportion x low high).isNaN = true ∨ Worth (proportion x low high) 0 := by
  obtain ⟨t, ht⟩ := exists_infinity (sub_worth hhigh hlow).notNaN hwidth
  obtain ⟨hnum, hmem, hmem'⟩ :=
    clamp_mem (notNaN_of_isFinite hlow) (notNaN_of_isFinite hhigh) hle x
  have hpart := sub_worth (isFinite_of_between hnum hlow hhigh hmem hmem') hlow
  exact div_infinity hpart.notNaN ht

/-- **From the upper bound on the proportion is NaN:** the part is the whole, so it is infinite
as well. -/
theorem isNaN_proportion_of_high_le (hx : x.isNaN = false) (hge : toRat high ≤ toRat x) :
    (proportion x low high).isNaN = true := by
  have hclamp := clamp_worth hx (notNaN_of_isFinite hlow) (notNaN_of_isFinite hhigh)
  rw [min_eq_right hge, max_eq_right hle] at hclamp
  have hfinite := isFinite_of_between hclamp.notNaN hlow hhigh (hle.trans hclamp.toRat_eq.ge)
    hclamp.toRat_eq.le
  have hpart := sub_worth hfinite hlow
  have hwhole := sub_worth hhigh hlow
  -- The sample is held at the upper bound, so its distance is the width, which is infinite.
  have hinfinite : (clamp x low high - low).isFinite = false := by
    rw [Bool.eq_false_iff, ne_eq, isFinite_iff] at hwidth ⊢
    rw [hpart.toRat_eq, hclamp.toRat_eq, ← hwhole.toRat_eq]
    exact fun h => hwidth ⟨hwhole.notNaN, h.2⟩
  obtain ⟨s, hs⟩ := exists_infinity hpart.notNaN hinfinite
  obtain ⟨t, ht⟩ := exists_infinity hwhole.notNaN hwidth
  exact isNaN_infinity_div_infinity hs ht

end

/-! ### Numbers that are not above zero -/

/-- NaN, or a number that is not above zero. -/
def NotAbove (x : Float) : Prop :=
  x.isNaN = false → toRat x ≤ 0

/-- Negative infinity is not above zero. -/
theorem notAbove_of_eq_packed {x : Float} (h : x = packed (.infinity .negative)) :
    NotAbove x := by
  intro _
  rw [h, toRat, unpack_packed, unpack_pack_infinity, value_infinity, signed]
  exact neg_nonpos.2 limit_pos.le

/-- A finite number above zero has a positive sign and a mantissa. -/
theorem exists_positive {x : Float} (hx : x.isFinite = true) (h : 0 < toRat x) :
    ∃ m e hm, x.toModel.unpack = .finite .positive m e hm := by
  have hcanonical := (canonical_of_isFinite hx).1
  unfold toRat at h
  generalize x.toModel.unpack = u at hcanonical h
  -- A mantissa with a negative sign would stand for a negative number.
  cases u with
  | zero s => exact absurd h (lt_irrefl 0)
  | finite s m e hm =>
    cases s with
    | negative =>
      have hpos : (0 : ℚ) < m * 2 ^ e := by positivity
      rw [value_finite, signed] at h
      linarith
    | positive => exact ⟨m, e, hm, rfl⟩
  | infinity s => exact hcanonical.elim
  | notANumber => exact hcanonical.elim

/-- A number that is not above zero is finite or the negative infinity. -/
theorem isFinite_or_infinity {x : Float} (hx : x.isNaN = false) (h : toRat x ≤ 0) :
    x.isFinite = true ∨ x.toModel.unpack = .infinity .negative := by
  refine (Bool.eq_false_or_eq_true x.isFinite).imp_right fun hfinite => ?_
  obtain ⟨s, hs⟩ := exists_infinity hx hfinite
  cases s with
  | negative => exact hs
  | positive =>
    rw [toRat, hs, value_infinity, signed] at h
    exact absurd h limit_pos.not_ge

/-- NaN is not above zero. -/
theorem notAbove_of_isNaN {x : Float} (h : x.isNaN = true) : NotAbove x := by
  intro hnum
  rw [h] at hnum
  cases hnum

/-- Every other double is a number from zero on. -/
theorem notAbove_or_nonneg (x : Float) : NotAbove x ∨ (x.isNaN = false ∧ 0 ≤ toRat x) := by
  cases hx : x.isNaN with
  | true => exact .inl (notAbove_of_isNaN hx)
  | false => exact (le_total (toRat x) 0).imp (fun h _ => h) fun h => ⟨rfl, h⟩

/-- What is not above zero is not raised above it by a positive divisor, -/
theorem NotAbove.div {x y : Float} (hx : NotAbove x) (hy : y.isFinite = true)
    (hpos : 0 < toRat y) : NotAbove (x / y) := by
  cases hnum : x.isNaN with
  | true => exact notAbove_of_isNaN (isNaN_div_left hnum y)
  | false =>
    rcases isFinite_or_infinity hnum (hx hnum) with hfinite | hinfinity
    · intro _
      rw [(div_worth hfinite hy hpos.ne').toRat_eq]
      exact rounded_nonpos (div_nonpos_of_nonpos_of_nonneg (hx hnum) hpos.le)
    · obtain ⟨m, e, hm, hunpack⟩ := exists_positive hy hpos
      refine notAbove_of_eq_packed ?_
      rw [div_eq_packed, hinfinity, hunpack]
      rfl

/-- nor by a factor that is not negative. -/
theorem NotAbove.mul {x y : Float} (hx : NotAbove x) (hy : y.isFinite = true)
    (hnonneg : 0 ≤ toRat y) : NotAbove (x * y) := by
  cases hnum : x.isNaN with
  | true => exact notAbove_of_isNaN (isNaN_mul_left hnum y)
  | false =>
    rcases isFinite_or_infinity hnum (hx hnum) with hfinite | hinfinity
    · intro _
      rw [(mul_worth hfinite hy).toRat_eq]
      exact rounded_nonpos (mul_nonpos_of_nonpos_of_nonneg (hx hnum) hnonneg)
    · rcases hnonneg.eq_or_lt with hzero | hpos
      · -- the infinity times zero is NaN
        obtain ⟨s, hs⟩ := exists_zero (notNaN_of_isFinite hy) hzero.symm
        refine notAbove_of_isNaN (isNaN_of_eq_packed (mul_eq_packed x y) ?_)
        rw [hinfinity, hs]
        rfl
      · obtain ⟨m, e, hm, hunpack⟩ := exists_positive hy hpos
        refine notAbove_of_eq_packed ?_
        rw [mul_eq_packed, hinfinity, hunpack]
        rfl

/-- What is not above zero has the floor 0 in a range from 0 on. -/
theorem NotAbove.floorWithin_eq_zero {x : Float} (h : NotAbove x) {hi : ℤ} (h0 : 0 ≤ hi)
    (hhi : (hi : ℚ) ≤ limit) : floorWithin 0 hi x = 0 := by
  cases hx : x.isNaN with
  | true =>
    unfold floorWithin
    rw [isNaN_iff.1 hx]
  | false =>
    -- The floor of a number that is not above zero is held at zero, as NaN is.
    have hfloor : ⌊toRat x⌋ ≤ 0 := by
      rw [Int.floor_le_iff]
      have := h hx
      push_cast
      linarith
    have hlow : -limit ≤ ((0 : ℤ) : ℚ) := by
      rw [Int.cast_zero]
      exact neg_nonpos.2 limit_pos.le
    rw [floorWithin_eq hlow h0 hhi hx]
    unfold within
    omega

end Exact
end GlobeView

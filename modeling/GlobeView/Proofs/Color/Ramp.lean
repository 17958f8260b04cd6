/-
# Ramps

A channel at a position in `[0, 1]` of a ramp is made of its `level`, which is rounded
twice, after the product and after the sum (`Ramp.sum_worth`).  The ends and their
difference are channels, so they are doubles, and rounding keeps doubles and the order.

If the difference fits in 32 bits (`Channel.Near`), then, rounding or not,

* a channel stays between the ends (`Ramp.channelAt_between`);
* it rises with the position if the ramp does, and falls with it if the ramp does;
* at 1 it is the end of the ramp.

If it does not fit, it has wrapped around by `2 ^ 32`, and at 1 the ramp is outside the
range of a channel, on the side of its start.  So a ramp arrives at its end exactly when
the differences fit (`Ramp.color_one_iff`).
-/

import GlobeView.Color.Ramp
import GlobeView.Proofs.Number.Proportion

namespace GlobeView

open Exact

/-! ### Channels -/

namespace Channel

/-- The floor is held inside the range of a channel, so the conversion does not wrap around. -/
theorem toInt_ofFloor (x : Float) :
    (ofFloor x).toInt = floorWithin (-2147483648) 2147483647 x := by
  obtain ⟨hlow, hhigh⟩ := floorWithin_bounds (by norm_num : (-2147483648 : ℤ) ≤ 0)
    (by norm_num : (0 : ℤ) ≤ 2147483647) x
  exact Int32.toInt_ofInt_of_le (by omega) (by omega)

/-- The channel of NaN is 0. -/
theorem toInt_ofFloor_of_isNaN {x : Float} (hx : x.isNaN = true) : (ofFloor x).toInt = 0 := by
  rw [toInt_ofFloor, floorWithin, isNaN_iff.1 hx]

/-- The channel of a number is its floor, held inside the range of a channel. -/
theorem toInt_ofFloor_within {x : Float} (hx : x.isNaN = false) :
    (ofFloor x).toInt = within (-2147483648) 2147483647 ⌊toRat x⌋ := by
  have hlimit : (2147483648 : ℚ) ≤ limit := by
    have := (rounded_intCast (n := 2147483648) (by norm_num)).2
    rw [abs_of_pos (by norm_num)] at this
    exact_mod_cast this.le
  rw [toInt_ofFloor, floorWithin_eq (by push_cast; linarith) (by norm_num)
    (by push_cast; linarith) hx]

/-- The channel of a number between two channels is its floor, and between them. -/
theorem toInt_ofFloor_eq {x : Float} {lo hi : ℤ} (hx : x.isNaN = false)
    (hlo : -2147483648 ≤ lo) (hhi : hi ≤ 2147483647) (h : (lo : ℚ) ≤ toRat x)
    (h' : toRat x ≤ hi) :
    (ofFloor x).toInt = ⌊toRat x⌋ ∧ lo ≤ ⌊toRat x⌋ ∧ ⌊toRat x⌋ ≤ hi := by
  have hfloor : lo ≤ ⌊toRat x⌋ := Int.le_floor.2 h
  have hfloor' : ⌊toRat x⌋ ≤ hi := Int.cast_le.1 ((Int.floor_le _).trans h')
  rw [toInt_ofFloor_within hx, within]
  omega

/-- Near channels have the difference of their numbers. -/
theorem Near.toInt_sub {a b : Channel} (h : a.Near b) : (b - a).toInt = b.toInt - a.toInt := by
  obtain ⟨hlow, hhigh⟩ := h
  rw [Int32.toInt_sub]
  exact Int.bmod_eq_of_le (by omega) (by omega)

/-- Of channels that are not near, the difference is off by `2 ^ 32`, so that it leads from one
beyond the range of a channel, on the side that it set out from. -/
theorem add_toInt_sub_of_not_near {a b : Channel} (h : ¬ a.Near b) :
    (a.toInt + (b - a).toInt < -2147483648 ∧ -2147483648 < b.toInt) ∨
      (2147483647 < a.toInt + (b - a).toInt ∧ b.toInt < 2147483647) := by
  have := a.le_toInt
  have := a.toInt_lt
  have := b.le_toInt
  have := b.toInt_lt
  unfold Near at h
  rw [Int32.toInt_sub, Int.bmod]
  split <;> omega

/-- Channels have less than 53 bits. -/
theorem abs_toInt_lt (a : Channel) : |a.toInt| < 2 ^ 53 := by
  have := a.le_toInt
  have := a.toInt_lt
  rw [Int.abs_eq_natAbs]
  omega

/-- A channel is a double. -/
theorem rounded_toInt (a : Channel) : rounded (a.toInt : ℚ) = a.toInt :=
  (rounded_intCast a.abs_toInt_lt).1

/-- The double of a channel is finite and worth the channel. -/
theorem toDouble_worth (a : Channel) :
    Worth a.toDouble (a.toInt : ℤ) ∧ a.toDouble.isFinite = true := by
  have hworth : Worth a.toDouble (a.toInt : ℤ) := ofInt_worth a.abs_toInt_lt
  exact ⟨hworth, hworth.isFinite (rounded_intCast a.abs_toInt_lt).2⟩

end Channel

namespace Ramp

/-! ### Levels -/

/-- The number that a channel at position `t` of a ramp from `a` to `b` is made of. -/
def level (a b : Channel) (t : ℚ) : ℚ :=
  rounded (a.toInt + rounded (t * (b - a).toInt))

/-- Rounding keeps a scaled difference between zero and the difference. -/
theorem rounded_mul_mem {t d : ℚ} (h0 : 0 ≤ t) (h1 : t ≤ 1) (hd : rounded d = d) :
    min 0 d ≤ rounded (t * d) ∧ rounded (t * d) ≤ max 0 d := by
  -- Zero and `d` are doubles, so rounding does not leave the range between them.
  refine rounded_mem ?_ ?_ ?_ ?_
  · rw [rounded_mono.map_min, rounded_zero, hd]
  · rw [rounded_mono.map_max, rounded_zero, hd]
  · rcases le_total 0 d with h | h
    · rw [min_eq_left h]
      positivity
    · rw [min_eq_right h]
      nlinarith
  · rcases le_total 0 d with h | h
    · rw [max_eq_right h]
      nlinarith
    · rw [max_eq_left h]
      exact mul_nonpos_of_nonneg_of_nonpos h0 h

/-- Levels are between the ends. -/
theorem level_mem {a b : Channel} (hab : a.Near b) {t : ℚ} (h0 : 0 ≤ t) (h1 : t ≤ 1) :
    ((min a.toInt b.toInt : ℤ) : ℚ) ≤ level a b t ∧
      level a b t ≤ (max a.toInt b.toInt : ℤ) := by
  -- The channels are near, so their difference is the true one.
  have hdiff : ((b - a).toInt : ℚ) = b.toInt - a.toInt := by
    rw [hab.toInt_sub, Int.cast_sub]
  obtain ⟨hlow, hhigh⟩ := rounded_mul_mem h0 h1 (Channel.rounded_toInt (b - a))
  unfold level
  generalize rounded (t * _) = p at hlow hhigh
  rw [hdiff] at hlow hhigh
  push_cast
  -- The sum is between the two channels before it is rounded, and these are doubles.
  refine rounded_mem ?_ ?_ ?_ ?_
  · rw [rounded_mono.map_min, a.rounded_toInt, b.rounded_toInt]
  · rw [rounded_mono.map_max, a.rounded_toInt, b.rounded_toInt]
  · grind
  · grind

/-- On a ramp that rises, levels rise. -/
theorem level_mono {a b : Channel} (hnear : a.Near b) (hab : a.toInt ≤ b.toInt) {t t' : ℚ}
    (h : t ≤ t') : level a b t ≤ level a b t' := by
  have hdiff : (0 : ℚ) ≤ (b - a).toInt := by
    rw [hnear.toInt_sub]
    exact_mod_cast sub_nonneg.2 hab
  refine rounded_mono (add_le_add_right (rounded_mono ?_) _)
  exact mul_le_mul_of_nonneg_right h hdiff

/-- On a ramp that falls, levels fall. -/
theorem level_anti {a b : Channel} (hnear : a.Near b) (hab : b.toInt ≤ a.toInt) {t t' : ℚ}
    (h : t ≤ t') : level a b t' ≤ level a b t := by
  have hdiff : ((b - a).toInt : ℚ) ≤ 0 := by
    rw [hnear.toInt_sub]
    exact_mod_cast sub_nonpos.2 hab
  refine rounded_mono (add_le_add_right (rounded_mono ?_) _)
  exact mul_le_mul_of_nonpos_right h hdiff

/-- The level at 1 is the start and the difference, which is exact. -/
theorem level_one (a b : Channel) : level a b 1 = (a.toInt + (b - a).toInt : ℤ) := by
  have hsum : |a.toInt + (b - a).toInt| < 2 ^ 53 := by
    have := a.le_toInt
    have := a.toInt_lt
    have := (b - a).le_toInt
    have := (b - a).toInt_lt
    rw [Int.abs_eq_natAbs]
    omega
  rw [level, one_mul, Channel.rounded_toInt]
  exact_mod_cast (rounded_intCast hsum).1

/-! ### Channels of a ramp -/

section

variable {a b : Channel} {t : Float}

/-- At a position in `[0, 1]`, the double that a channel is made of is worth the level. -/
theorem sum_worth (a b : Channel) (ht : Position t) :
    Worth (a.toDouble + t * (b - a).toDouble) (level a b (toRat t)) := by
  obtain ⟨ha, hafinite⟩ := a.toDouble_worth
  obtain ⟨hd, hdfinite⟩ := Channel.toDouble_worth (b - a)
  have hdlimit := (rounded_intCast (b - a).abs_toInt_lt).2
  have hproduct := mul_worth ht.isFinite hdfinite
  rw [hd.toRat_eq] at hproduct
  -- The product stays between zero and the difference, so it is finite.
  obtain ⟨hlow, hhigh⟩ := rounded_mul_mem ht.nonneg ht.le_one (Channel.rounded_toInt (b - a))
  obtain ⟨hdlow, hdhigh⟩ := abs_lt.1 hdlimit
  have hfinite := hproduct.isFinite (abs_lt.2
    ⟨(lt_min (neg_lt_zero.2 limit_pos) hdlow).trans_le hlow,
      hhigh.trans_lt (max_lt limit_pos hdhigh)⟩)
  have hsum := add_worth hafinite hfinite
  rwa [ha.toRat_eq, hproduct.toRat_eq] at hsum

/-- **At a position in `[0, 1]` a channel is the floor of its level,** which is between the
ends of the ramp. -/
theorem toInt_channelAt (hab : a.Near b) (ht : Position t) :
    (channelAt a b t).toInt = ⌊level a b (toRat t)⌋ ∧
      min a.toInt b.toInt ≤ ⌊level a b (toRat t)⌋ ∧
      ⌊level a b (toRat t)⌋ ≤ max a.toInt b.toInt := by
  have hsum := sum_worth a b ht
  obtain ⟨hlow, hhigh⟩ := level_mem hab ht.nonneg ht.le_one
  have := a.le_toInt
  have := a.toInt_lt
  have := b.le_toInt
  have := b.toInt_lt
  -- Between two channels nothing is held at the ends of the range of 32 bits.
  rw [← hsum.toRat_eq] at hlow hhigh ⊢
  exact Channel.toInt_ofFloor_eq hsum.notNaN (by omega) (by omega) hlow hhigh

/-- **At a position in `[0, 1]` a channel is between the ends of the ramp.** -/
theorem channelAt_between (hab : a.Near b) (ht : Position t) :
    min a.toInt b.toInt ≤ (channelAt a b t).toInt ∧
      (channelAt a b t).toInt ≤ max a.toInt b.toInt := by
  obtain ⟨heq, hmem⟩ := toInt_channelAt hab ht
  rwa [heq]

/-- At a position that is NaN every channel is 0. -/
theorem toInt_channelAt_of_isNaN (a b : Channel) (ht : t.isNaN = true) :
    (channelAt a b t).toInt = 0 :=
  Channel.toInt_ofFloor_of_isNaN (isNaN_add_right _ (isNaN_mul_left ht _))

/-- **At 1 a channel is the end of the ramp exactly when the difference fits.** -/
theorem channelAt_one_iff (ht : Position t) (h1 : toRat t = 1) :
    channelAt a b t = b ↔ a.Near b := by
  have hsum := sum_worth a b ht
  have heq : (channelAt a b t).toInt
      = within (-2147483648) 2147483647 (a.toInt + (b - a).toInt) := by
    rw [channelAt, Channel.toInt_ofFloor_within hsum.notNaN, hsum.toRat_eq, h1, level_one,
      Int.floor_intCast]
  rw [← Int32.toInt_inj, heq, within]
  -- A difference that wraps around misses `b` by `2 ^ 32`, and no holding makes up for that.
  constructor
  · intro hreached
    by_contra hnot
    rcases Channel.add_toInt_sub_of_not_near hnot with h | h <;> omega
  · intro hnear
    have := b.le_toInt
    have := b.toInt_lt
    rw [hnear.toInt_sub]
    omega

end

/-- **The end of a ramp is reached at 1 exactly when the differences fit.** -/
theorem color_one_iff {r : Ramp} {t : Float} (ht : Position t) (h1 : toRat t = 1) (alpha : Float) :
    r.color t alpha = r.stop.withAlpha alpha ↔ r.Fits := by
  rw [color, Rgb.withAlpha, Rgba.mk.injEq, channelAt_one_iff ht h1, channelAt_one_iff ht h1,
    channelAt_one_iff ht h1]
  constructor
  · rintro ⟨hred, hgreen, hblue, -⟩
    exact ⟨hred, hgreen, hblue⟩
  · rintro ⟨hred, hgreen, hblue⟩
    exact ⟨hred, hgreen, hblue, rfl⟩

/-! ### Rising and falling ramps -/

/-- A relation that positions in order pass on from the ends of a ramp to its channels, the
ends included, if the difference of the ends fits. -/
structure Respects (r : ℤ → ℤ → Prop) : Prop where
  along : ∀ {a b : Channel} {t t' : Float}, a.Near b → r a.toInt b.toInt → Position t →
    Position t' → toRat t ≤ toRat t' → r (channelAt a b t).toInt (channelAt a b t').toInt
  start : ∀ {a b : Channel} {t : Float}, a.Near b → r a.toInt b.toInt → Position t →
    r a.toInt (channelAt a b t).toInt
  stop : ∀ {a b : Channel} {t : Float}, a.Near b → r a.toInt b.toInt → Position t →
    r (channelAt a b t).toInt b.toInt

/-- **A ramp that rises rises all along.** -/
theorem respects_le : Respects (· ≤ ·) where
  along {a b t t'} hnear hab ht ht' h := by
    rw [(toInt_channelAt hnear ht).1, (toInt_channelAt hnear ht').1]
    exact Int.floor_le_floor (level_mono hnear hab h)
  start {a b t} hnear hab ht := by
    have hlow := (channelAt_between hnear ht).1
    rwa [min_eq_left hab] at hlow
  stop {a b t} hnear hab ht := by
    have hhigh := (channelAt_between hnear ht).2
    rwa [max_eq_right hab] at hhigh

/-- **A ramp that falls falls all along.** -/
theorem respects_ge : Respects (· ≥ ·) where
  along {a b t t'} hnear hab ht ht' h := by
    rw [(toInt_channelAt hnear ht).1, (toInt_channelAt hnear ht').1]
    exact Int.floor_le_floor (level_anti hnear hab h)
  start {a b t} hnear hab ht := by
    have hhigh := (channelAt_between hnear ht).2
    rwa [max_eq_left hab] at hhigh
  stop {a b t} hnear hab ht := by
    have hlow := (channelAt_between hnear ht).1
    rwa [min_eq_right hab] at hlow

end Ramp

end GlobeView

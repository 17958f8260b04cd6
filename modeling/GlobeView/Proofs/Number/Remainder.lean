/-
# Remainders

`floorMod a n` takes the multiple `n ⌊a / n⌋` off `a`, with every step rounded.  It is meant to be
in `[0, n)` for positive `n`, and it is exactly if the multiple is not above `a` and the difference
is at most `n` (`floorMod_inRange_iff`).  Rounding can break both:

| what is rounded | what goes wrong | for instance |
| --- | --- | --- |
| the quotient, up to an integer | the multiple is above `a` | `1.7` and `0.1` |
| the quotient, up to zero | nothing is taken off a negative number | `-5e-324` and `10` |
| the product, downwards | the difference is above `n` | `1.0000000000000001e23` and `10` |
| a quotient that is too large | the difference is infinite | `1e308` and `1e-10` |

If the product needs no rounding, the first row is ruled out: a quotient is not rounded to an
integer whose product with the divisor is a double (`rounded_div_lt_iff`).  Then the remainder is
in range, unless a quotient below zero is rounded to zero (`TakenExactly.inRange_iff`), and for
whole numbers of up to 53 bits it is the exact one (`floorMod_ofInt`).
-/

import GlobeView.Proofs.Number.Proportion
import GlobeView.Proofs.Number.Quotient
import GlobeView.Proofs.Number.Whole

namespace GlobeView

open Exact Float.Model UnpackedFloat

/-- The double is in `[0, n)`. -/
def InRange (n f : Float) : Prop :=
  0.0 ≤ f ∧ f < n

/-- The multiple of `n` that is taken off `a`. -/
def taken (a n : Float) : Float :=
  n * floor (a / n)

/-- The multiple that is taken off is finite and was not rounded. -/
structure TakenExactly (a n : Float) : Prop where
  finite : (taken a n).isFinite = true
  exact : toRat (taken a n) = toRat n * toRat (floor (a / n))

namespace Exact

/-! ### Differences -/

/-- Anything less NaN is NaN. -/
theorem isNaN_sub_right (x : Float) {y : Float} (hy : y.isNaN = true) : (x - y).isNaN = true := by
  refine isNaN_of_eq_packed (sub_eq_packed x y) ?_
  rw [isNaN_iff.1 hy]
  cases x.toModel.unpack <;> rfl

/-- What remains of a finite double after an infinity is the opposite infinity. -/
theorem sub_infinity_worth {x y : Float} (hx : x.isFinite = true) {s : Sign}
    (hy : y.toModel.unpack = .infinity s) : Worth (x - y) (-signed s limit) := by
  have hunpack : (x - y).toModel.unpack = .infinity (-s) := by
    have hcanonical := (canonical_of_isFinite hx).1
    rw [sub_eq_packed, hy, unpack_packed]
    generalize x.toModel.unpack = u at hcanonical
    cases u with
    | zero t => exact unpack_pack_infinity (-s)
    | finite t m e hm => exact unpack_pack_infinity (-s)
    | infinity t => exact hcanonical.elim
    | notANumber => exact hcanonical.elim
  constructor
  · change (x - y).toModel.unpack.isNaN = false
    rw [hunpack]
    rfl
  · rw [toRat, hunpack, value_infinity, signed_neg]

/-- Distinct doubles have a difference that is no zero, so its sign tells the order. -/
theorem sub_worth_nonneg_iff {a p : Float} (ha : a.isFinite = true) (hp : p.isNaN = false) :
    ∃ q, Worth (a - p) q ∧ (0 ≤ q ↔ toRat p ≤ toRat a) := by
  -- The difference of unequal doubles is not rounded to zero; an infinity decides by its sign.
  cases hfinite : p.isFinite with
  | true =>
    refine ⟨_, sub_worth ha hfinite, fun h => ?_, fun h => ?_⟩
    · refine le_of_not_gt fun hlt => ?_
      have hpos := (isDouble_toRat ha).rounded_sub_pos (isDouble_toRat hfinite) hlt
      rw [← neg_sub, rounded_neg] at hpos
      linarith
    · rw [← rounded_zero]
      exact rounded_mono (sub_nonneg.2 h)
  | false =>
    -- An infinity outweighs any finite double.
    obtain ⟨s, hs⟩ := exists_infinity hp hfinite
    have hlimit := limit_pos
    obtain ⟨hlow, hhigh⟩ := abs_lt.1 (isFinite_iff.1 ha).2
    refine ⟨_, sub_infinity_worth ha hs, ?_⟩
    rw [show toRat p = signed s limit by rw [toRat, hs, value_infinity]]
    cases s with
    | negative =>
      rw [signed, neg_neg]
      exact iff_of_true hlimit.le hlow.le
    | positive =>
      rw [signed]
      exact iff_of_false (by linarith) hhigh.not_ge

/-- **A difference is not negative if and only if nothing larger is taken off,** infinities and
NaN included. -/
theorem zero_le_sub_iff {a p : Float} (ha : a.isFinite = true) : 0.0 ≤ a - p ↔ p ≤ a := by
  rw [le_iff, le_iff, zero_worth.toRat_eq]
  cases hp : p.isNaN with
  | true =>
    rw [isNaN_sub_right a hp]
    simp
  | false =>
    obtain ⟨q, hq, hiff⟩ := sub_worth_nonneg_iff ha hp
    rw [hq.toRat_eq, hiff]
    exact and_congr (iff_of_true zero_worth.notNaN rfl)
      (and_congr_left' (iff_of_true hq.notNaN (notNaN_of_isFinite ha)))

/-! ### The whole part of a rounded quotient -/

section

variable {a n : ℚ} (ha : IsDouble a) (hn : 0 < n)
  (hlimit : |(⌊rounded (a / n)⌋ : ℚ)| < limit) (hproduct : IsDouble (n * ⌊rounded (a / n)⌋))

include ha hn hlimit hproduct

/-- **The whole part of the rounded quotient is not above the quotient,** if its product with
the divisor is a double and no quotient below zero was rounded to zero. -/
theorem floor_rounded_div_le (hdouble : IsDouble ⌊rounded (a / n)⌋)
    (hsign : 0 ≤ a ∨ rounded (a / n) ≠ 0) : (⌊rounded (a / n)⌋ : ℚ) ≤ a / n := by
  have hfloor := Int.floor_le (rounded (a / n))
  -- The rounded quotient reaches a whole number other than zero only where the quotient does.
  rcases eq_or_ne ⌊rounded (a / n)⌋ 0 with hzero | hne
  · rw [hzero, Int.cast_zero] at hfloor ⊢
    rcases hsign with hnonneg | hrounded
    · positivity
    · refine le_of_not_gt fun hneg => hrounded ?_
      exact (rounded_nonpos hneg.le).antisymm hfloor
  · have hlarge := smallestNormal_lt_abs_intCast hne
    refine le_of_not_gt fun hlt => hfloor.not_gt ?_
    exact (rounded_div_lt_iff ha hn (hdouble.rounded_eq hlimit.le) hlarge hlimit hproduct).2 hlt

/-- The next integer is not below the quotient. -/
theorem div_le_floor_rounded_add_one (hdouble : IsDouble (rounded (a / n))) :
    a / n ≤ ⌊rounded (a / n)⌋ + 1 := by
  have hfloor := Int.lt_floor_add_one (rounded (a / n))
  -- The next whole number is a double, so rounding does not reach it from above.
  by_cases hsmall : |⌊rounded (a / n)⌋ + 1| < 2 ^ 53
  · refine le_of_not_gt fun hlt => hfloor.not_ge ?_
    have hround := (rounded_intCast hsmall).1
    push_cast at hround
    rw [← hround]
    exact rounded_mono hlt.le
  · -- doubles of that size are whole, and so the quotient was not rounded
    obtain ⟨m, e, hm, -, habs⟩ := hdouble
    rcases floor_eq_or_abs_lt hm habs with ⟨-, hwhole⟩ | ⟨-, hlt⟩
    · have hne : ⌊rounded (a / n)⌋ ≠ 0 := by
        intro hzero
        norm_num [hzero] at hsmall
      have heq := div_eq_of_rounded ha hn hwhole.symm (smallestNormal_lt_abs_intCast hne) hlimit
        hproduct
      linarith
    · have hbounds := abs_lt.1 hlt
      refine absurd (abs_lt.2 ⟨?_, ?_⟩) hsmall
      · have : (-2 ^ 53 : ℚ) < ⌊rounded (a / n)⌋ + 1 := by linarith
        exact_mod_cast this
      · have : (⌊rounded (a / n)⌋ + 1 : ℚ) < 2 ^ 53 := by
          linarith [Int.floor_le (rounded (a / n))]
        exact_mod_cast this

end

/-- **The quotient of whole numbers is rounded, but not past a whole number.** -/
theorem floor_rounded_intCast_div {i j : ℤ} (hj : 0 < j) (h : |i| + j < 2 ^ 53) :
    ⌊rounded ((i : ℚ) / j)⌋ = i / j := by
  have hjq : (0 : ℚ) < j := by exact_mod_cast hj
  have hdivision := Int.mul_ediv_add_emod i j
  have hlow := Int.emod_nonneg i hj.ne'
  have hhigh := Int.emod_lt_of_pos i hj
  have hquotient := Int.abs_ediv_le_abs i j
  have hi := abs_le.1 (le_refl |i|)
  have hnext : |i / j + 1| < 2 ^ 53 := by
    rw [abs_lt]
    rw [abs_le] at hquotient
    omega
  have hproduct : |j * (i / j + 1)| < 2 ^ 53 := by
    rw [mul_add, mul_one, abs_lt]
    omega
  have hmul : (j : ℚ) * (i / j : ℤ) = i - (i % j : ℤ) := by
    rw [eq_sub_iff_add_eq]
    exact_mod_cast hdivision
  have hlow' : (0 : ℚ) ≤ (i % j : ℤ) := by exact_mod_cast hlow
  have hhigh' : ((i % j : ℤ) : ℚ) < j := by exact_mod_cast hhigh
  -- The quotient lies between two integers, which are doubles that rounding does not cross.
  rw [Int.floor_eq_iff]
  constructor
  · rw [← (rounded_intCast (hquotient.trans_lt (by omega))).1]
    refine rounded_mono ?_
    rw [le_div_iff₀ hjq]
    linarith
  · rcases eq_or_ne (i / j + 1) 0 with hzero | hne
    · -- the quotient is below zero, and more than what would be rounded to zero
      have hneg : (i : ℚ) ≤ -1 := by
        have : i ≤ -1 := by
          rw [show i / j = -1 by omega] at hdivision
          omega
        exact_mod_cast this
      have htiny : smallest * j ≤ 1 := by
        have hlt : (j : ℚ) ≤ 2 ^ 53 := by
          have := abs_nonneg i
          exact_mod_cast (by omega : j ≤ 2 ^ 53)
        have hscale : smallest * 2 ^ 53 ≤ 1 := by
          rw [smallest, ← zpow_natCast, ← zpow_add₀ two_ne_zero]
          exact zpow_le_one_of_nonpos₀ one_le_two (by norm_num)
        exact (mul_le_mul_of_nonneg_left hlt smallest_pos.le).trans hscale
      have hbelow : (i : ℚ) / j ≤ -smallest := by
        rw [div_le_iff₀ hjq]
        linarith
      have hround := rounded_mono hbelow
      rw [rounded_neg, rounded_smallest] at hround
      have hcast : ((i / j : ℤ) : ℚ) + 1 = 0 := by exact_mod_cast hzero
      linarith [smallest_pos]
    · have hround := rounded_intCast hnext
      have hdouble := isDouble_intCast hproduct
      have hlarge := smallestNormal_lt_abs_intCast hne
      push_cast at hround hdouble hlarge
      refine (rounded_div_lt_iff (isDouble_intCast (by omega)) hjq hround.1 hlarge hround.2
        hdouble).2 ?_
      rw [div_lt_iff₀ hjq]
      linarith

/-! ### Finite multiples -/

section

variable {n : Float} (hn : n.isFinite = true) (hpos : 0 < toRat n)

include hn hpos

/-- A multiple of a positive double is finite for finite factors only. -/
theorem isFinite_of_mul {y : Float} (hy : y.isNaN = false) (h : (n * y).isFinite = true) :
    y.isFinite = true := by
  refine Bool.eq_false_or_eq_true _ |>.resolve_right fun hfinite => ?_
  obtain ⟨s, hs⟩ := exists_infinity hy hfinite
  obtain ⟨m, e, hm, hunpack⟩ := exists_positive hn hpos
  have hinfinite : (n * y).toModel.unpack = .infinity (.positive * s) := by
    rw [mul_eq_packed, hs, hunpack, unpack_packed]
    exact unpack_pack_infinity _
  change (n * y).toModel.unpack.isFinite = true at h
  rw [hinfinite] at h
  cases h

/-- If a multiple by a floor is finite, then so is what the floor is of, and the floor too. -/
theorem isFinite_of_mul_floor {x : Float} (hx : x.isNaN = false)
    (h : (n * floor x).isFinite = true) : x.isFinite = true ∧ (floor x).isFinite = true := by
  have hfinite : x.isFinite = true := by
    refine Bool.eq_false_or_eq_true _ |>.resolve_right fun hfinite => ?_
    obtain ⟨s, hs⟩ := exists_infinity hx hfinite
    have hfloor : floor x = x := by
      rw [floor, hs]
    rw [hfloor] at h
    rw [isFinite_of_mul hn hpos hx h] at hfinite
    cases hfinite
  exact ⟨hfinite, isFinite_of_mul hn hpos (floor_worth hfinite).notNaN h⟩

end

end Exact

section

variable {a n : Float} (ha : a.isFinite = true) (hn : n.isFinite = true) (hpos : 0.0 < n)

include ha hpos

/-- **The remainder is in range if and only if the multiple is not above the number and the
difference is at most the divisor,** the difference that is the divisor being mended. -/
theorem inRange_floorMod_iff_taken :
    InRange n (floorMod a n) ↔ taken a n ≤ a ∧ a - taken a n ≤ n := by
  obtain ⟨hzero, hnum, hvalue⟩ := lt_iff.1 hpos
  rw [← zero_le_sub_iff ha, floorMod, ← taken, InRange]
  -- A difference of exactly `n` is replaced by zero, which is in range.
  cases hends : a - taken a n == n with
  | true =>
    obtain ⟨hdifference, -, heq⟩ := beq_iff.1 hends
    rw [if_pos rfl]
    refine iff_of_true ⟨le_iff.2 ⟨hzero, hzero, le_rfl⟩, hpos⟩ ⟨?_, ?_⟩
    · exact le_iff.2 ⟨hzero, hdifference, heq ▸ hvalue.le⟩
    · exact le_iff.2 ⟨hdifference, hnum, heq.le⟩
  | false =>
    rw [if_neg Bool.false_ne_true]
    refine and_congr_right fun hnonneg => ?_
    have hdifference := (le_iff.1 hnonneg).2.1
    have hne : toRat (a - taken a n) ≠ toRat n := by
      intro heq
      rw [beq_iff.2 ⟨hdifference, hnum, heq⟩] at hends
      cases hends
    rw [le_iff, lt_iff, le_iff_lt_or_eq, or_iff_left hne]

include hn

/-- What the rounded quotient and the multiple are worth if the multiple is not rounded. -/
theorem TakenExactly.worth (h : TakenExactly a n) :
    Worth (a / n) (rounded (toRat a / toRat n)) ∧
      Worth (floor (a / n)) ⌊rounded (toRat a / toRat n)⌋ ∧
      Worth (taken a n) (toRat n * ⌊rounded (toRat a / toRat n)⌋) ∧
      (a / n).isFinite = true ∧ (floor (a / n)).isFinite = true := by
  obtain ⟨-, -, hvalue⟩ := lt_iff.1 hpos
  rw [zero_worth.toRat_eq] at hvalue
  have hquotient := div_worth ha hn hvalue.ne'
  -- The multiple is finite, so the quotient is, and its floor.
  have hfinite := isFinite_of_mul_floor hn hvalue hquotient.notNaN h.finite
  have hfloor := floor_worth hfinite.1
  rw [hquotient.toRat_eq] at hfloor
  refine ⟨hquotient, hfloor, ⟨notNaN_of_isFinite h.finite, ?_⟩, hfinite⟩
  rw [h.exact, hfloor.toRat_eq]

/-- **A multiple that is not rounded leaves a remainder in range,** unless a quotient below zero
is rounded to zero. -/
theorem TakenExactly.inRange_iff (h : TakenExactly a n) :
    InRange n (floorMod a n) ↔ ¬(a < 0.0 ∧ (a / n == 0.0) = true) := by
  obtain ⟨-, hnum, hvalue⟩ := lt_iff.1 hpos
  rw [zero_worth.toRat_eq] at hvalue
  obtain ⟨hquotient, hfloor, htaken, hfinite, hfinite'⟩ := h.worth ha hn hpos
  have hdouble := isDouble_toRat hfinite
  have hwhole := isDouble_toRat hfinite'
  have hlimit := (isFinite_iff.1 hfinite').2
  have hproduct := isDouble_toRat h.finite
  have hdifference := sub_worth ha h.finite
  rw [hquotient.toRat_eq] at hdouble
  rw [hfloor.toRat_eq] at hwhole hlimit
  rw [htaken.toRat_eq] at hproduct hdifference
  rw [inRange_floorMod_iff_taken ha hpos, lt_iff, beq_iff, le_iff, le_iff, hquotient.toRat_eq,
    zero_worth.toRat_eq, hdifference.toRat_eq, htaken.toRat_eq]
  have hanum := notNaN_of_isFinite ha
  have hself := (isDouble_toRat hn).rounded_eq (isFinite_iff.1 hn).2.le
  -- Only a negative number whose quotient is rounded to zero stays out of range.
  by_cases hsign : 0 ≤ toRat a ∨ rounded (toRat a / toRat n) ≠ 0
  · -- The multiple is not above the double, and less than one divisor below it.
    have hlow := floor_rounded_div_le (isDouble_toRat ha) hvalue hlimit hproduct hwhole hsign
    have hhigh := div_le_floor_rounded_add_one (isDouble_toRat ha) hvalue hlimit hproduct hdouble
    rw [le_div_iff₀ hvalue] at hlow
    rw [div_le_iff₀ hvalue] at hhigh
    refine iff_of_true ⟨⟨htaken.notNaN, hanum, by linarith⟩, hdifference.notNaN, hnum, ?_⟩ ?_
    · exact (rounded_mono (by linarith)).trans hself.le
    · rintro ⟨⟨-, -, hneg⟩, -, -, hzero⟩
      exact hsign.elim hneg.not_ge fun hne => hne hzero
  · rw [not_or, not_le, not_not] at hsign
    obtain ⟨hneg, hzero⟩ := hsign
    refine iff_of_false ?_ (not_not.2 ⟨⟨hanum, zero_worth.notNaN, hneg⟩, hquotient.notNaN,
      zero_worth.notNaN, hzero⟩)
    rintro ⟨⟨-, -, hle⟩, -⟩
    rw [hzero, Int.floor_zero, Int.cast_zero, mul_zero] at hle
    exact hneg.not_ge hle

/-- **The remainder of a finite double by a positive one is in range if and only if** the multiple
that is taken off is not above the double and the difference is at most the divisor.  If the
multiple is not rounded, that is so unless a quotient below zero is rounded to zero. -/
theorem floorMod_inRange_iff :
    (InRange n (floorMod a n) ↔ taken a n ≤ a ∧ a - taken a n ≤ n) ∧
      (TakenExactly a n →
        (InRange n (floorMod a n) ↔ ¬(a < 0.0 ∧ (a / n == 0.0) = true))) :=
  ⟨inRange_floorMod_iff_taken ha hpos, TakenExactly.inRange_iff ha hn hpos⟩

end

/-- A number just below zero leaves a difference that is rounded to the divisor, and so 0. -/
theorem floorMod_inRange_iff_tiny :
    let a : Float := -1e-16
    a.isFinite = true ∧ (10.0 : Float).isFinite = true ∧ (0.0 : Float) < 10.0 ∧
      TakenExactly a 10.0 ∧ InRange 10.0 (floorMod a 10.0) := by
  intro a
  have hfinite : a.isFinite = true := by decide +kernel
  have hten : (10.0 : Float).isFinite = true := by decide
  have hpos : (0.0 : Float) < 10.0 := by decide
  have htaken : TakenExactly a 10.0 := by
    have hfloor : Worth (floor (a / 10.0)) (-1 : ℤ) :=
      literal_worth (by norm_num) (by decide +kernel)
    have hmultiple : Worth (taken a 10.0) (-10 : ℤ) :=
      literal_worth (by norm_num) (by decide +kernel)
    have hdivisor : Worth 10.0 (10 : ℤ) := literal_worth (by norm_num) rfl
    refine ⟨by decide +kernel, ?_⟩
    rw [hmultiple.toRat_eq, hfloor.toRat_eq, hdivisor.toRat_eq]
    norm_num
  have hquotient : ¬(a < 0.0 ∧ (a / 10.0 == 0.0) = true) := by decide +kernel
  exact ⟨hfinite, hten, hpos, htaken,
    ((floorMod_inRange_iff hfinite hten hpos).2 htaken).2 hquotient⟩

/-- **The quotient of 1.7 and 0.1 is rounded to 17,** and 17 times 0.1 is above 1.7. -/
theorem not_inRange_floorMod :
    ¬ ∀ a n : Float, a.isFinite = true → n.isFinite = true → 0.0 < n →
      InRange n (floorMod a n) := by
  intro h
  have hrange := h 1.7 0.1 (by decide +kernel) (by decide +kernel) (by decide +kernel)
  have hneg : floorMod 1.7 0.1 < 0.0 := by decide +kernel
  exact (lt_iff.1 hneg).2.2.not_ge (le_iff.1 hrange.1).2.2

/-! ### Whole numbers -/

/-- **For whole numbers of up to 53 bits the remainder is the exact one.** -/
theorem floorMod_ofInt {i j : ℤ} (hj : 0 < j) (h : |i| + j < 2 ^ 53) :
    Worth (floorMod (Float.ofInt i) (Float.ofInt j)) (i % j : ℤ) := by
  have hdivision := Int.mul_ediv_add_emod i j
  have hlow := Int.emod_nonneg i hj.ne'
  have hhigh := Int.emod_lt_of_pos i hj
  have hi := abs_le.1 (le_refl |i|)
  have hia : |i| < 2 ^ 53 := by omega
  have hja : |j| < 2 ^ 53 := by rw [abs_lt]; omega
  have hproduct : |j * (i / j)| < 2 ^ 53 := by rw [abs_lt]; omega
  have hremainder : |i % j| < 2 ^ 53 := by rw [abs_lt]; omega
  have hjq : (j : ℚ) ≠ 0 := by exact_mod_cast hj.ne'
  have ha := ofInt_worth hia
  have hn := ofInt_worth hja
  have hafinite := ha.isFinite (rounded_intCast hia).2
  have hnfinite := hn.isFinite (rounded_intCast hja).2
  have hquotient := div_worth hafinite hnfinite (by rwa [hn.toRat_eq])
  rw [ha.toRat_eq, hn.toRat_eq] at hquotient
  -- The quotient is not greater than the dividend.
  have hquotientfinite : (Float.ofInt i / Float.ofInt j).isFinite = true := by
    refine hquotient.isFinite ?_
    have hround := rounded_intCast (n := |i|) (by rwa [abs_abs])
    push_cast at hround
    rw [abs_abs] at hround
    have hle : |(i : ℚ) / j| ≤ |(i : ℚ)| := by
      rw [abs_div]
      refine div_le_self (abs_nonneg _) ?_
      exact_mod_cast hj.trans_le (le_abs_self j)
    rw [abs_rounded]
    exact ((rounded_mono hle).trans hround.1.le).trans_lt hround.2
  have hfloor := floor_worth hquotientfinite
  rw [hquotient.toRat_eq, floor_rounded_intCast_div hj h] at hfloor
  have htaken := mul_worth hnfinite (hfloor.isFinite
    (rounded_intCast ((Int.abs_ediv_le_abs i j).trans_lt hia)).2)
  rw [hn.toRat_eq, hfloor.toRat_eq, ← Int.cast_mul, (rounded_intCast hproduct).1] at htaken
  have hdifference := sub_worth hafinite (htaken.isFinite (rounded_intCast hproduct).2)
  rw [ha.toRat_eq, htaken.toRat_eq, ← Int.cast_sub, ← Int.emod_def,
    (rounded_intCast hremainder).1] at hdifference
  -- The remainder is below the divisor, so it is not replaced.
  have hends : ¬(Float.ofInt i - Float.ofInt j * floor (Float.ofInt i / Float.ofInt j)
      == Float.ofInt j) = true := by
    intro heq
    have hvalue := (beq_iff.1 heq).2.2
    rw [hdifference.toRat_eq, hn.toRat_eq, Int.cast_inj] at hvalue
    omega
  rw [floorMod, if_neg hends]
  exact hdifference

end GlobeView

/-
# Rounding of mantissas

Results of arithmetic are rounded on a mantissa and two more bits: the bit after
the last one, and whether any bit after that is set.  For a number `x ≥ 0` these
three are `extended x`.  Dropping the last bit of the mantissa gives those of
`x / 2` (`shiftRightOne_extended`), and the bits decide the rounding as
`halfEven` does (`roundedMantissa_extended`).  So however the mantissa of a
result is found, exactly or by division with a remainder, rounding it to 53 bits
gives `magnitude x` (`roundWithAccuracy_denotes`).
-/

import GlobeView.Proofs.Number.Rounding
import Mathlib.Algebra.Order.Floor.Semifield

namespace GlobeView
namespace Exact

open Float.Model UnpackedFloat

/-! ### Mantissas with two more bits -/

/-- The whole part of `x`, the first bit after it, and whether there are more. -/
def extended (x : ℚ) : ExtendedMantissa where
  mantissa := ⌊x⌋₊
  roundBit := decide (1 / 2 ≤ Int.fract x)
  stickyBit := decide (Int.fract (2 * x) ≠ 0)

/-- Twice the fraction, without its whole part. -/
theorem fract_two_mul (x : ℚ) : Int.fract (2 * x) =
    if Int.fract x < 1 / 2 then 2 * Int.fract x else 2 * Int.fract x - 1 := by
  have hx := Int.floor_add_fract x
  have h0 := Int.fract_nonneg x
  have h1 := Int.fract_lt_one x
  split_ifs with h
  · refine Int.fract_eq_iff.2 ⟨by linarith, by linarith, 2 * ⌊x⌋, ?_⟩
    push_cast
    linarith
  · refine Int.fract_eq_iff.2 ⟨by linarith, by linarith, 2 * ⌊x⌋ + 1, ?_⟩
    push_cast
    linarith

/-- The two bits after the whole part are all that rounding to even needs. -/
theorem roundedMantissa_extended (x : ℚ) : (extended x).roundedMantissa = halfEven x := by
  have h0 := Int.fract_nonneg x
  unfold extended halfEven ExtendedMantissa.roundedMantissa
  rw [fract_two_mul]
  by_cases hlt : Int.fract x < 1 / 2
  · rw [if_pos hlt, if_pos hlt, decide_eq_false (not_le.2 hlt)]
    cases decide (2 * Int.fract x ≠ 0) <;> rfl
  · rw [if_neg hlt, if_neg hlt, decide_eq_true (not_lt.1 hlt)]
    -- From one half on, the bits behind the first tell whether it is more than a half.
    by_cases heq : Int.fract x = 1 / 2
    · have hsticky : ¬ 2 * Int.fract x - 1 ≠ 0 := by
        rw [heq]
        norm_num
      rw [if_pos heq, decide_eq_false hsticky]
      rfl
    · have hsticky : 2 * Int.fract x - 1 ≠ 0 := by
        intro h
        exact heq (by linarith)
      rw [if_neg heq, decide_eq_true hsticky]
      rfl

/-- **Dropping the last bit halves the number.** -/
theorem shiftRightOne_extended {x : ℚ} (hx : 0 ≤ x) :
    (extended x).shiftRightOne = extended (x / 2) := by
  have hwhole : ((⌊x⌋₊ : ℕ) : ℚ) + Int.fract x = x := by
    rw [natCast_floor_eq_intCast_floor hx]
    exact Int.floor_add_fract x
  have hparts := Nat.div_add_mod ⌊x⌋₊ 2
  have hpartsq : 2 * ((⌊x⌋₊ / 2 : ℕ) : ℚ) + ((⌊x⌋₊ % 2 : ℕ) : ℚ) = ⌊x⌋₊ := by
    exact_mod_cast hparts
  have h0 := Int.fract_nonneg x
  have h1 := Int.fract_lt_one x
  -- The last bit of the whole part becomes the first bit after it.
  have hhalf : Int.fract (x / 2) = ((⌊x⌋₊ % 2 : ℕ) + Int.fract x) / 2 := by
    have hbit : ((⌊x⌋₊ % 2 : ℕ) : ℚ) ≤ 1 := by
      exact_mod_cast Nat.le_of_lt_succ (Nat.mod_lt _ two_pos)
    have hbit' : (0 : ℚ) ≤ ((⌊x⌋₊ % 2 : ℕ) : ℚ) := by positivity
    refine Int.fract_eq_iff.2 ⟨by linarith, by linarith, (⌊x⌋₊ / 2 : ℕ), ?_⟩
    rw [Int.cast_natCast]
    linarith
  have hround : (⌊x⌋₊ % 2 != 0) = decide (1 / 2 ≤ Int.fract (x / 2)) := by
    rw [hhalf]
    rcases Nat.mod_two_eq_zero_or_one ⌊x⌋₊ with h | h
    · rw [h, decide_eq_false (by push_cast; linarith)]
      rfl
    · rw [h, decide_eq_true (by push_cast; linarith)]
      rfl
  -- The bits that were after the whole part are behind one more, where only their presence counts.
  have hsticky : (decide (1 / 2 ≤ Int.fract x) || decide (Int.fract (2 * x) ≠ 0))
      = decide (Int.fract (2 * (x / 2)) ≠ 0) := by
    rw [mul_div_cancel₀ x two_ne_zero, fract_two_mul, ← Bool.decide_or]
    refine decide_eq_decide.2 ?_
    split_ifs with h
    · constructor
      · rintro (h' | h') hzero
        · linarith
        · exact h' (by linarith)
      · intro hne
        exact .inr fun hzero => hne (by linarith)
    · constructor
      · intro _ hzero
        linarith
      · intro _
        exact .inl (not_lt.1 h)
  have hmantissa : ⌊x⌋₊ / 2 = ⌊x / 2⌋₊ := (Nat.floor_div_ofNat x 2).symm
  unfold extended ExtendedMantissa.shiftRightOne
  rw [hmantissa, hround, hsticky]

/-- Shifting by `n` bits divides by `2 ^ n`, and the two bits keep track of what is lost. -/
theorem shiftRight_extended {x : ℚ} (hx : 0 ≤ x) (n : ℕ) :
    extended x >>> n = extended (x / 2 ^ n) := by
  change n.repeat ExtendedMantissa.shiftRightOne (extended x) = _
  induction n with
  | zero => simp [Nat.repeat]
  | succ n ih =>
    rw [Nat.repeat, ih, shiftRightOne_extended (by positivity), pow_succ, div_div]

/-- The two bits after a whole part and a fraction. -/
theorem extended_add {f : ℚ} (m : ℕ) (h0 : 0 ≤ f) (h1 : f < 1) :
    extended (m + f) = ExtendedMantissa.ofMantissaAndAccuracy m
      (if f = 0 then .exact else .inexact (compare (2 * f) 1)) := by
  have hfloor : ⌊(m : ℚ) + f⌋₊ = m := by
    rw [Nat.floor_eq_iff (by positivity)]
    exact ⟨by linarith, by linarith⟩
  -- The natural is the whole part, and what is added is the fraction.
  have hfract : Int.fract ((m : ℚ) + f) = f :=
    Int.fract_eq_iff.2 ⟨h0, h1, m, by push_cast; ring⟩
  unfold extended
  rw [hfloor, fract_two_mul, hfract]
  rcases h0.eq_or_lt with rfl | hpos
  · norm_num
    rfl
  rw [if_neg hpos.ne']
  -- The fraction is below, at, or above one half.
  rcases lt_trichotomy (2 * f) 1 with h | h | h
  · have hlt : f < 1 / 2 := by linarith
    rw [compare_lt_iff_lt.2 h, if_pos hlt, decide_eq_false (not_le.2 hlt),
      decide_eq_true (by positivity)]
    rfl
  · have heq : f = 1 / 2 := by linarith
    rw [h, compare_eq_iff_eq.2 rfl, heq]
    norm_num
    rfl
  · have hgt : 1 / 2 < f := by linarith
    rw [compare_gt_iff_gt.2 h, if_neg (not_lt.2 hgt.le), decide_eq_true hgt.le,
      decide_eq_true (by linarith : 2 * f - 1 ≠ 0)]
    rfl

/-- A mantissa that is exact has no bits after it. -/
theorem ofMantissaAndAccuracy_exact (m : ℕ) :
    ExtendedMantissa.ofMantissaAndAccuracy m .exact = extended m := by
  have h := extended_add m le_rfl one_pos
  rwa [add_zero, if_pos rfl, eq_comm] at h

/-- A quotient and its remainder have the bits of the exact quotient. -/
theorem ofMantissaAndAccuracy_div (a : ℕ) {b : ℕ} (hb : 0 < b) :
    ExtendedMantissa.ofMantissaAndAccuracy (a / b) (accuracyOfFraction (a % b) b)
      = extended (a / b : ℚ) := by
  have hbq : (0 : ℚ) < b := by exact_mod_cast hb
  have hrest : ((a % b : ℕ) : ℚ) < b := by exact_mod_cast Nat.mod_lt a hb
  have hparts : (b : ℚ) * (a / b : ℕ) + (a % b : ℕ) = a := by exact_mod_cast Nat.div_add_mod a b
  -- The quotient is its whole part and the share of the remainder.
  have hsplit : (a : ℚ) / b = (a / b : ℕ) + ((a % b : ℕ) : ℚ) / b := by
    field_simp
    linarith
  rw [hsplit, extended_add _ (by positivity) ((div_lt_one hbq).2 hrest)]
  congr 1
  unfold accuracyOfFraction
  rcases Nat.eq_zero_or_pos (a % b) with h | h
  · rw [h, if_pos rfl, if_pos (by simp)]
  · have hne : ((a % b : ℕ) : ℚ) / b ≠ 0 := by positivity
    -- Twice the remainder compares with the divisor as twice the fraction does with one.
    have hside : compare (2 * (a % b)) b = compare (2 * (((a % b : ℕ) : ℚ) / b)) 1 := by
      rw [← mul_div_assoc]
      rcases lt_trichotomy (2 * (a % b)) b with hlt | heq | hgt
      · rw [compare_lt_iff_lt.2 hlt, eq_comm, compare_lt_iff_lt, div_lt_one hbq]
        exact_mod_cast hlt
      · rw [compare_eq_iff_eq.2 heq, eq_comm, compare_eq_iff_eq, div_eq_one_iff_eq hbq.ne']
        exact_mod_cast heq
      · rw [compare_gt_iff_gt.2 hgt, eq_comm, compare_gt_iff_gt]
        refine (one_lt_div hbq).2 ?_
        exact_mod_cast hgt
    rw [if_neg h.ne', if_neg hne, hside]

end Exact
end GlobeView

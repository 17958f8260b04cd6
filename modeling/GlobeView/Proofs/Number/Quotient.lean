/-
# Rounded quotients

Rounding moves a number by less than one part in `2^53`, subnormal numbers apart
(`abs_rounded_sub_lt`), and two doubles that differ by less than that are the same
(`IsDouble.eq_of_near`).  A quotient `a / n` that is rounded to `q` has a product `n q` as close
to `a`.  So if that product is a double, it is `a`, and the quotient was not rounded at all
(`div_eq_of_rounded`).

Hence rounding does not carry a quotient up to a double whose product with the divisor is a
double as well (`rounded_div_lt_iff`): on which side of it the quotient lies can be seen after
rounding.
-/

import GlobeView.Proofs.Number.Rounding

namespace GlobeView
namespace Exact

/-! ### Signs -/

/-- Rounding looks at the magnitude only and keeps the sign. -/
theorem abs_rounded (x : ℚ) : |rounded x| = rounded |x| := by
  rcases le_total 0 x with h | h
  · have hround := rounded_mono h
    rw [rounded_zero] at hround
    rw [abs_of_nonneg h, abs_of_nonneg hround]
  · rw [abs_of_nonpos h, rounded_neg, abs_of_nonpos (rounded_nonpos h)]

/-! ### How far rounding moves a number -/

/-- The closest natural is at most a half away. -/
theorem abs_halfEven_sub_le {x : ℚ} (hx : 0 ≤ x) : |(halfEven x : ℚ) - x| ≤ 1 / 2 := by
  have hwhole : ((⌊x⌋₊ : ℕ) : ℚ) + Int.fract x = x := by
    rw [natCast_floor_eq_intCast_floor hx]
    exact Int.floor_add_fract x
  have h0 := Int.fract_nonneg x
  have h1 := Int.fract_lt_one x
  unfold halfEven
  rw [abs_le]
  -- Below a half the floor, at a half the even neighbour, and above it the next natural.
  split_ifs with hlt heq
  · constructor <;> linarith
  · have hbit : ((⌊x⌋₊ % 2 : ℕ) : ℚ) ≤ 1 := by
      exact_mod_cast Nat.le_of_lt_succ (Nat.mod_lt _ two_pos)
    have hbit' : (0 : ℚ) ≤ ((⌊x⌋₊ % 2 : ℕ) : ℚ) := by positivity
    push_cast at hbit hbit' ⊢
    constructor <;> linarith
  · push_cast
    constructor <;> linarith [not_lt.1 hlt]

/-- The smallest positive double of all 53 bits. -/
def smallestNormal : ℚ :=
  2 ^ (-1022 : ℤ)

/-- Doubles of all 53 bits are not zero. -/
theorem smallestNormal_pos : 0 < smallestNormal := by
  unfold smallestNormal
  positivity

/-- The smallest of them is a double itself. -/
theorem rounded_smallestNormal : rounded smallestNormal = smallestNormal := by
  have hdouble : IsDouble smallestNormal := by
    refine ⟨1, -1022, by norm_num, by norm_num, ?_⟩
    rw [abs_of_pos smallestNormal_pos, Nat.cast_one, one_mul, smallestNormal]
  refine hdouble.rounded_eq ?_
  rw [abs_of_pos smallestNormal_pos, smallestNormal, limit, ← zpow_natCast]
  exact zpow_le_zpow_right₀ one_le_two (by norm_num)

/-- The smallest of them is below one half. -/
theorem smallestNormal_lt_half : smallestNormal < 1 / 2 := by
  rw [smallestNormal, one_div, ← zpow_neg_one]
  exact zpow_lt_zpow_right₀ one_lt_two (by norm_num)

/-- Every integer but zero has a magnitude of all 53 bits. -/
theorem smallestNormal_lt_abs_intCast {k : ℤ} (hk : k ≠ 0) : smallestNormal < |(k : ℚ)| := by
  have hone : (1 : ℚ) ≤ |(k : ℚ)| := by exact_mod_cast Int.one_le_abs hk
  linarith [smallestNormal_lt_half]

/-- A number with all 53 bits in its mantissa is moved by less than one part in `2^53`: by half
of its last bit at most, and not at all if the other bits are zero. -/
theorem abs_magnitude_sub_lt {x : ℚ} (h : smallestNormal ≤ x) :
    |magnitude x - x| * 2 ^ 53 < x := by
  have hx : 0 < x := smallestNormal_pos.trans_le h
  have hlog := (Int.zpow_le_iff_le_log one_lt_two hx).1 h
  have hlow : (2 : ℚ) ^ (grain x + 52) ≤ x := by
    refine (Int.zpow_le_iff_le_log one_lt_two hx).2 ?_
    unfold grain
    omega
  rw [zpow_add₀ two_ne_zero] at hlow
  unfold magnitude
  have hpos : (0 : ℚ) < 2 ^ grain x := by positivity
  generalize (2 : ℚ) ^ grain x = unit at hlow hpos
  -- In units of the last bit the number is at least `2 ^ 52`, and the error at most one half.
  have hscaled : (2 ^ 52 : ℕ) ≤ x / unit := by
    rw [le_div_iff₀ hpos]
    push_cast
    linarith
  have herror : |(halfEven (x / unit) : ℚ) - x / unit| * 2 ^ 53 < x / unit := by
    -- At `2 ^ 52` itself the bound would not be strict, but there is no error.
    rcases hscaled.eq_or_lt with heq | hlt
    · rw [← heq, halfEven_natCast, sub_self, abs_zero, zero_mul]
      positivity
    · have := abs_halfEven_sub_le (x := x / unit) (by positivity)
      push_cast at hlt
      linarith
  have hmul : halfEven (x / unit) * unit - x = (halfEven (x / unit) - x / unit) * unit := by
    field_simp
  rw [hmul, abs_mul, abs_of_pos hpos, mul_right_comm]
  rwa [lt_div_iff₀ hpos] at herror

/-- **Rounding moves a number by less than one part in `2^53`,** if it is neither subnormal nor
too large. -/
theorem abs_rounded_sub_lt {x : ℚ} (h : smallestNormal ≤ |x|) (hlimit : |rounded x| < limit) :
    |rounded x - x| * 2 ^ 53 < |x| := by
  have hpositive {x : ℚ} (hx : 0 ≤ x) (h : smallestNormal ≤ x) (hlimit : |rounded x| < limit) :
      |rounded x - x| * 2 ^ 53 < x := by
    -- What is below the limit was not held there.
    have hrounded : rounded x = magnitude x := by
      rw [rounded, unlimited, if_pos hx] at hlimit ⊢
      rcases le_total (magnitude x) limit with hle | hle
      · exact limited_of_abs_le (by rwa [abs_of_nonneg (magnitude_nonneg x)])
      · rw [limited, min_eq_left hle, max_eq_right (by linarith [limit_pos]),
          abs_of_pos limit_pos] at hlimit
        exact absurd hlimit (lt_irrefl _)
    rw [hrounded]
    exact abs_magnitude_sub_lt h
  rcases le_total 0 x with hx | hx
  · rw [abs_of_nonneg hx] at h ⊢
    exact hpositive hx h hlimit
  · have hneg := hpositive (neg_nonneg.2 hx) (by rwa [abs_of_nonpos hx] at h)
      (by rwa [rounded_neg, abs_neg])
    rwa [rounded_neg, neg_sub_neg, abs_sub_comm, ← abs_of_nonpos hx] at hneg

/-! ### How far doubles are apart -/

/-- Multiples of a unit of which the first has at most 53 bits are the same if they differ by less
than one part in `2^53`. -/
theorem eq_of_near_of_multiples {A B : ℤ} {unit : ℚ} (hunit : 0 < unit)
    (hA : |A * unit| ≤ 2 ^ 53 * unit) (h : |A * unit - B * unit| * 2 ^ 53 < |A * unit|) :
    A = B := by
  rw [← sub_mul, abs_mul, abs_mul, abs_of_pos hunit, mul_right_comm] at h
  rw [abs_mul, abs_of_pos hunit] at hA
  have hA' := le_of_mul_le_mul_right hA hunit
  have h' := lt_of_mul_lt_mul_right h hunit.le
  have hlt : |(A : ℚ) - B| < 1 := by linarith
  have hint : |A - B| < 1 := by exact_mod_cast hlt
  rw [Int.abs_lt_one_iff] at hint
  omega

/-- **Doubles that differ by less than one part in `2^53` are the same.** -/
theorem IsDouble.eq_of_near {x y : ℚ} (hx : IsDouble x) (hy : IsDouble y)
    (h : |x - y| * 2 ^ 53 < |x|) : x = y := by
  obtain ⟨m, e, hm, -, hxabs⟩ := hx
  obtain ⟨m', e', hm', -, hyabs⟩ := hy
  rcases le_total e e' with he | he
  · obtain ⟨A, rfl⟩ := exists_mul_zpow hxabs le_rfl
    obtain ⟨B, rfl⟩ := exists_mul_zpow hyabs he
    have hmq : (m : ℚ) ≤ 2 ^ 53 := by exact_mod_cast hm.le
    rw [eq_of_near_of_multiples (by positivity) (by rw [hxabs]; gcongr) h]
  · obtain ⟨A, rfl⟩ := exists_mul_zpow hxabs he
    obtain ⟨B, rfl⟩ := exists_mul_zpow hyabs le_rfl
    have hpos : (0 : ℚ) < 2 ^ e' := by positivity
    have hmq : (m' : ℚ) + 1 ≤ 2 ^ 53 := by exact_mod_cast hm'
    -- one part in `2^53` of the first cannot bridge the gap between `2^53 - 1` and `2^53` units
    have hle : |A * (2 : ℚ) ^ e'| ≤ 2 ^ 53 * 2 ^ e' := by
      have htriangle := abs_sub_abs_le_abs_sub (A * (2 : ℚ) ^ e') (B * 2 ^ e')
      rw [hyabs] at htriangle
      nlinarith
    rw [eq_of_near_of_multiples hpos hle h]

/-! ### Quotients -/

section

variable {a n q : ℚ} (ha : IsDouble a) (hn : 0 < n)

include ha hn

/-- **A quotient that is rounded to `q` is `q`, if its product with the divisor is a double.** -/
theorem div_eq_of_rounded (hq : rounded (a / n) = q) (hlarge : smallestNormal < |q|)
    (hlimit : |q| < limit) (hproduct : IsDouble (n * q)) : a / n = q := by
  -- The quotient itself is normal, since rounding keeps the order.
  have hnormal : smallestNormal ≤ |a / n| := by
    refine le_of_not_gt fun hsmall => ?_
    have hround := rounded_mono hsmall.le
    rw [rounded_smallestNormal, ← abs_rounded, hq] at hround
    linarith
  have hnear := abs_rounded_sub_lt hnormal (hq ▸ hlimit)
  rw [hq, abs_div, abs_of_pos hn, lt_div_iff₀ hn] at hnear
  have hscale : a - n * q = (a / n - q) * n := by
    field_simp
  -- Two doubles that are closer than the last bit of one of them are equal.
  have heq : a = n * q := by
    refine ha.eq_of_near hproduct ?_
    rwa [hscale, abs_mul, abs_sub_comm, mul_right_comm, abs_of_pos hn]
  rw [div_eq_iff hn.ne', heq, mul_comm]

/-- **Rounding does not carry a quotient to a double whose product with the divisor is a
double.** -/
theorem rounded_div_lt_iff (hround : rounded q = q) (hlarge : smallestNormal < |q|)
    (hlimit : |q| < limit) (hproduct : IsDouble (n * q)) : rounded (a / n) < q ↔ a / n < q := by
  constructor
  · intro h
    refine lt_of_not_ge fun hge => h.not_ge ?_
    exact hround.ge.trans (rounded_mono hge)
  · intro h
    refine ((rounded_mono h.le).trans hround.le).lt_of_ne fun heq => h.ne ?_
    exact div_eq_of_rounded ha hn heq hlarge hlimit hproduct

end

end Exact
end GlobeView

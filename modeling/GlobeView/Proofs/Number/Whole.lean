/-
# Doubles and whole numbers

Every natural is converted to the double closest to it (`ofNat_worth_rounded`), not only those
of up to 53 bits.  Back again, `floor` and `nearest` are worth the floor and the closest integer
of what a finite double stands for (`floor_worth`, `nearest_worth`): either the double is whole
already, or it is below `2^52` and the integer is small enough to be converted exactly.

The remainder of a division is found among naturals, on the smaller of the exponents.  It is below
the mantissa that was not shifted, or not above it, so it has 53 bits and is not rounded
(`remainder_worth`).

Halves of integers are doubles as well, and bounds that rounding does not pass (`Worth.mem_halves`).
-/

import GlobeView.Proofs.Number.Fixed
import GlobeView.Proofs.Number.Proportion

namespace GlobeView
namespace Exact

open Float.Model UnpackedFloat

/-! ### Naturals -/

/-- A natural that is written with more bits behind it, times one, is rounded. -/
theorem mul_shifted_denotes {n b : ℕ} (hn : 0 < n) (hb : 52 ≤ b) (hshift : 0 < n <<< b)
    (hone : 0 < 10 ^ Int.toNat 0) :
    Denotes (UnpackedFloat.mul .binary64 (.finite .positive (n <<< b) (-b) hshift)
      (.finite .positive (10 ^ Int.toNat 0) 0 hone)) (unlimited n) := by
  have hpos := Nat.mul_pos hshift hone
  -- The shifted natural has more than enough bits, so the product is on a fine scale.
  have hscale : (-b : ℤ) + (0 : ℤ)
      ≤ grain ((n <<< b * 10 ^ Int.toNat 0 : ℕ) * 2 ^ ((-b : ℤ) + (0 : ℤ))) := by
    have hlog : b ≤ (n <<< b * 10 ^ Int.toNat 0).log2 := by
      rw [Nat.le_log2 hpos.ne', Nat.shiftLeft_eq]
      exact (Nat.le_mul_of_pos_left _ hn).trans (Nat.le_mul_of_pos_right _ hone)
    rw [grain_natCast_mul hpos]
    omega
  have hvalue : signed .positive ((n <<< b : ℕ) * 2 ^ (-b : ℤ))
      * signed .positive ((10 ^ Int.toNat 0 : ℕ) * 2 ^ (0 : ℤ)) = n := by
    rw [signed, signed, Nat.shiftLeft_eq, zpow_neg, zpow_natCast]
    push_cast
    field_simp
  have hproduct := mul_finite_denotes .positive .positive hshift hone hscale
  rwa [hvalue] at hproduct

/-- A natural that is read as a literal stands for the closest double. -/
theorem ofScientific_denotes {n : ℕ} (hn : 0 < n) :
    Denotes (UnpackedFloat.ofScientific .binary64 n 0) (unlimited n) := by
  unfold UnpackedFloat.ofScientific
  rw [dif_neg hn.ne', if_neg (by norm_num), if_neg (by norm_num), if_pos le_rfl]
  exact mul_shifted_denotes hn (by decide) _ _

/-- **Naturals are converted to the closest double.** -/
theorem ofNat_worth_rounded (n : ℕ) : Worth (Float.ofNat n) (rounded n) := by
  -- Literals of 53 bits take a path of their own, and need no rounding.
  rcases lt_or_ge n (2 ^ 53) with h | h
  · have hrounded := (rounded_intCast (n := n) (by rw [Int.abs_eq_natAbs]; omega)).1
    rw [Int.cast_natCast] at hrounded
    rw [hrounded]
    exact ofNat_worth h
  · have hlarge : Float.ofNat n = packed (UnpackedFloat.ofScientific .binary64 n 0) := by
      change Float.ofScientific n false 0 = _
      rw [Float.ofScientific, dif_neg (by omega)]
      rfl
    rw [hlarge]
    exact (ofScientific_denotes (by omega)).worth

/-- The first number above 64 bits is a finite double. -/
theorem rounded_two_pow_64 : rounded (2 ^ 64) = 2 ^ 64 ∧ |(2 ^ 64 : ℚ)| < limit := by
  have hlt : |(2 ^ 64 : ℚ)| < limit := by
    rw [abs_of_pos (by positivity), limit]
    exact pow_lt_pow_right₀ one_lt_two (by norm_num)
  have hdouble : IsDouble (2 ^ 64) := ⟨1, 64, by norm_num, by norm_num, by norm_num⟩
  exact ⟨hdouble.rounded_eq hlt.le, hlt⟩

/-- Naturals of 64 bits are converted to finite doubles. -/
theorem isFinite_ofNat {n : ℕ} (hn : n < 2 ^ 64) : (Float.ofNat n).isFinite = true := by
  obtain ⟨hround, hlimit⟩ := rounded_two_pow_64
  have hle : (n : ℚ) ≤ 2 ^ 64 := by exact_mod_cast hn.le
  obtain ⟨hlow, hhigh⟩ := rounded_mem rounded_zero hround n.cast_nonneg hle
  refine (ofNat_worth_rounded n).isFinite ?_
  rw [abs_of_nonneg hlow]
  exact hhigh.trans_lt ((le_abs_self _).trans_lt hlimit)

/-- A positive natural is not rounded below one. -/
theorem one_le_rounded_natCast {n : ℕ} (hpos : 0 < n) : 1 ≤ rounded n := by
  have hround := rounded_mono (show (1 : ℚ) ≤ n by exact_mod_cast hpos)
  rwa [rounded_one] at hround

/-! ### Halves -/

/-- Halves of integers of up to 53 bits are doubles, -/
theorem isDouble_half {k : ℤ} (h : |k| < 2 ^ 53) : IsDouble (k / 2) := by
  rw [Int.abs_eq_natAbs] at h
  refine ⟨k.natAbs, -1, by omega, by norm_num, ?_⟩
  rw [abs_div, abs_two, Nat.cast_natAbs, Int.cast_abs, zpow_neg_one, div_eq_mul_inv]

/-- and are left as they are by rounding. -/
theorem rounded_half {k : ℤ} (h : |k| < 2 ^ 53) :
    rounded (k / 2) = k / 2 ∧ |(k : ℚ) / 2| < limit := by
  have hlt : |(k : ℚ) / 2| < limit := by
    have hwhole := (rounded_intCast h).2
    rw [abs_div, abs_two]
    linarith [abs_nonneg (k : ℚ)]
  exact ⟨(isDouble_half h).rounded_eq hlt.le, hlt⟩

/-- What is rounded stays between halves of integers. -/
theorem Worth.mem_halves {x : Float} {q : ℚ} (h : Worth x (rounded q)) {a b : ℤ}
    (ha : |a| < 2 ^ 53) (hb : |b| < 2 ^ 53) (hlow : (a : ℚ) / 2 ≤ q) (hhigh : q ≤ b / 2) :
    x.isFinite = true ∧ (a : ℚ) / 2 ≤ toRat x ∧ toRat x ≤ b / 2 := by
  obtain ⟨ha', halimit⟩ := rounded_half ha
  obtain ⟨hb', hblimit⟩ := rounded_half hb
  obtain ⟨hlow', hhigh'⟩ := rounded_mem ha' hb' hlow hhigh
  refine ⟨h.isFinite (abs_lt.2 ⟨?_, ?_⟩), h.toRat_eq ▸ hlow', h.toRat_eq ▸ hhigh'⟩
  · exact (abs_lt.1 halimit).1.trans_le hlow'
  · exact hhigh'.trans_lt (abs_lt.1 hblimit).2

/-! ### Whole parts -/

/-- The floor of a number of that size is converted exactly. -/
theorem ofInt_floor_worth {q : ℚ} (h : |q| < 2 ^ 53 - 1) : Worth (Float.ofInt ⌊q⌋) ⌊q⌋ := by
  obtain ⟨hlow, hhigh⟩ := abs_lt.1 h
  have hfloor := Int.floor_le q
  have hfloor' := Int.sub_one_lt_floor q
  refine ofInt_worth (abs_lt.2 ⟨?_, ?_⟩)
  · have : (-2 ^ 53 : ℚ) < ⌊q⌋ := by linarith
    exact_mod_cast this
  · have : (⌊q⌋ : ℚ) < 2 ^ 53 := by linarith
    exact_mod_cast this

/-- The closest integer is the floor of what lies one half further. -/
theorem nearestScaled_eq (m : ℕ) {e : ℤ} (he : e < 0) :
    ((nearestScaled m e : ℕ) : ℤ) = ⌊(m : ℚ) * 2 ^ e + 1 / 2⌋ := by
  have hfloor := floor_scaled_add_half 0 m e
  have hnone : e.toNat = 0 := by omega
  rw [pow_zero, mul_one, Nat.pow_zero, Nat.mul_one, hnone, Nat.pow_zero, Nat.mul_one] at hfloor
  rw [← Int.natCast_floor_eq_floor (by positivity), hfloor, nearestScaled, if_neg (not_le.2 he),
    Nat.pow_eq, Nat.pow_eq, Nat.pow_succ, Nat.mul_comm (2 ^ _) 2]

section

variable {x : Float} (hx : x.isFinite = true)

include hx

/-- **The floor of a finite double is worth the floor of what it stands for.** -/
theorem floor_worth : Worth (floor x) ⌊toRat x⌋ := by
  have hnum := notNaN_of_isFinite hx
  have hcanonical := (canonical_of_isFinite hx).1
  unfold floor
  unfold toRat
  generalize hunpack : x.toModel.unpack = u at hcanonical ⊢
  cases u with
  | zero s => exact ⟨hnum, by rw [toRat, hunpack, value_zero, Int.floor_zero, Int.cast_zero]⟩
  | finite s m e hm =>
    have habs : |value (.finite s m e hm)| = m * 2 ^ e := by
      rw [value_finite, abs_signed, abs_of_pos (by positivity)]
    dsimp only
    -- A double without bits behind the point is its own floor; any other floor has few bits.
    rcases floor_eq_or_abs_lt hcanonical.1 habs with ⟨he, hwhole⟩ | ⟨he, hlt⟩
    · rw [if_pos he]
      exact ⟨hnum, by rw [toRat, hunpack, hwhole]⟩
    · have hfloor : floorScaled (s.apply m) e = ⌊value (.finite s m e hm)⌋ := by
        rw [floorScaled_eq, cast_apply, signed_mul_right, Int.cast_natCast, value_finite]
      rw [if_neg (not_le.2 he), hfloor]
      exact ofInt_floor_worth (hlt.trans (by norm_num))
  | infinity s => exact hcanonical.elim
  | notANumber => exact hcanonical.elim

/-- **The integral double closest to a number that is not negative is worth the closest
integer,** a half going up. -/
theorem nearest_worth (h0 : 0 ≤ toRat x) : Worth (nearest x) ⌊toRat x + 1 / 2⌋ := by
  have hnum := notNaN_of_isFinite hx
  have hcanonical := (canonical_of_isFinite hx).1
  unfold nearest
  unfold toRat at h0 ⊢
  generalize hunpack : x.toModel.unpack = u at hcanonical h0 ⊢
  cases u with
  | zero s =>
    refine ⟨hnum, ?_⟩
    rw [toRat, hunpack, value_zero]
    norm_num
  | finite s m e hm =>
    have hpos : (0 : ℚ) < m * 2 ^ e := by positivity
    -- A finite double with a negative sign would be below zero.
    obtain rfl : s = .positive := by
      cases s with
      | negative =>
        rw [value_finite, signed] at h0
        linarith
      | positive => rfl
    rw [value_finite, signed]
    dsimp only
    -- A double without bits behind the point is its own nearest integer.
    rcases floor_eq_or_abs_lt hcanonical.1 (abs_of_pos hpos) with ⟨he, hwhole⟩ | ⟨he, hlt⟩
    · rw [if_pos he, ← hwhole, Int.floor_intCast_add]
      refine ⟨hnum, ?_⟩
      rw [toRat, hunpack, value_finite, signed, Int.cast_add, hwhole]
      norm_num
    · rw [if_neg (not_le.2 he), Sign.apply, nearestScaled_eq m he]
      refine ofInt_floor_worth ?_
      rw [abs_of_pos hpos] at hlt
      rw [abs_of_pos (by positivity)]
      linarith
  | infinity s => exact hcanonical.elim
  | notANumber => exact hcanonical.elim

end

/-! ### Remainders -/

/-- A mantissa that has the exponent already is left as it is. -/
theorem decreaseExponent_self (m : ℕ) (e : ℤ) : (decreaseExponent m e e).1 = m := by
  rw [decreaseExponent, sub_self, Int.toNat_zero, Nat.shiftLeft_zero]

/-- What is left of one mantissa by another has the bits of the one that was not shifted. -/
theorem decreaseExponent_mod_lt {m n : ℕ} {e d : ℤ} (hm : m < 2 ^ 53) (hn : 0 < n)
    (hn' : n < 2 ^ 53) :
    (decreaseExponent m e (min e d)).1 % (decreaseExponent n d (min e d)).1 < 2 ^ 53 := by
  rcases le_total e d with h | h
  · rw [min_eq_left h, decreaseExponent_self]
    exact (Nat.mod_le _ _).trans_lt hm
  · rw [min_eq_right h, decreaseExponent_self]
    exact (Nat.mod_lt _ hn).trans hn'

/-- A remainder of naturals, on any scale, is what is left of a multiple of the divisor. -/
theorem mod_mul_zpow (a b : ℕ) (low : ℤ) :
    ((a % b : ℕ) : ℚ) * 2 ^ low
      = a * 2 ^ low - b * 2 ^ low * ⌊(a * 2 ^ low : ℚ) / (b * 2 ^ low)⌋ := by
  have hfloor : ⌊(a * 2 ^ low : ℚ) / (b * 2 ^ low)⌋ = (a / b : ℕ) := by
    have hquotient := Rat.floor_intCast_div_natCast a b
    rw [mul_div_mul_right _ _ (zpow_ne_zero _ two_ne_zero)]
    rwa [Int.cast_natCast, ← Int.natCast_div] at hquotient
  have hdivision : (b : ℚ) * (a / b : ℕ) + (a % b : ℕ) = a := by
    exact_mod_cast Nat.div_add_mod a b
  rw [hfloor, Int.cast_natCast, ← hdivision]
  ring

/-- What is left of a number that is not negative is not negative, and not above it. -/
theorem sub_mul_floor_mem {x y : ℚ} (hx : 0 ≤ x) (hy : 0 < y) :
    0 ≤ x - y * ⌊x / y⌋ ∧ x - y * ⌊x / y⌋ < y ∧ x - y * ⌊x / y⌋ ≤ x := by
  have hlow := Int.floor_le (x / y)
  have hhigh := Int.lt_floor_add_one (x / y)
  have hnonneg : (0 : ℚ) ≤ ⌊x / y⌋ := by exact_mod_cast Int.floor_nonneg.2 (by positivity)
  have hmultiple : 0 ≤ y * ⌊x / y⌋ := by positivity
  rw [le_div_iff₀ hy] at hlow
  rw [div_lt_iff₀ hy] at hhigh
  exact ⟨by linarith, by linarith, by linarith⟩

/-- **The remainder of positive doubles is exact.** -/
theorem remainder_worth {x y : Float} (hx : x.isFinite = true) (hy : y.isFinite = true)
    (h0 : 0 < toRat x) (hpos : 0 < toRat y) :
    Worth (remainder x y) (toRat x - toRat y * ⌊toRat x / toRat y⌋) := by
  obtain ⟨m, e, hm, hux⟩ := exists_positive hx h0
  obtain ⟨n, d, hn, huy⟩ := exists_positive hy hpos
  obtain ⟨hcx, hlimit⟩ := canonical_of_isFinite hx
  have hcy := (canonical_of_isFinite hy).1
  obtain ⟨hnonneg, -, hle⟩ := sub_mul_floor_mem h0.le hpos
  have hx_eq : toRat x = m * 2 ^ e := by rw [toRat, hux, value_finite, signed]
  have hy_eq : toRat y = n * 2 ^ d := by rw [toRat, huy, value_finite, signed]
  rw [hux] at hcx
  rw [huy] at hcy
  rw [remainder, hux, huy, hx_eq, hy_eq]
  rw [hx_eq] at hlimit
  rw [hx_eq, hy_eq] at hnonneg hle
  have hlt := decreaseExponent_mod_lt (e := e) (d := d) hcx.1 hn hcy.1
  -- Both are brought to one scale, on which the remainder is one of naturals.
  have hleft := mod_mul_zpow (decreaseExponent m e (min e d)).1
    (decreaseExponent n d (min e d)).1 (min e d)
  rw [decreaseExponent_fst (min_le_left e d), decreaseExponent_fst (min_le_right e d)] at hleft
  have hdenotes := normalize_denotes
    ((decreaseExponent m e (min e d)).1 % (decreaseExponent n d (min e d)).1 : ℕ) (min e d)
    .positive
  have hdouble : IsDouble (m * 2 ^ e - n * 2 ^ d * ⌊(m * 2 ^ e : ℚ) / (n * 2 ^ d)⌋) := by
    refine ⟨_, min e d, hlt, le_min hcx.2.1 hcy.2.1, ?_⟩
    rw [← hleft, abs_of_nonneg (by positivity)]
  -- What is left is a double, so that neither its bits nor its size are cut.
  rw [Int.cast_natCast, hleft, hdouble.unlimited_eq] at hdenotes
  have hworth := hdenotes.worth
  rwa [limited_of_abs_le] at hworth
  rw [abs_of_nonneg hnonneg]
  exact hle.trans (abs_lt.1 hlimit).2.le

end Exact
end GlobeView

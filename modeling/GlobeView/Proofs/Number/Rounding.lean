/-
# Rounding to doubles

A finite double is `m · 2^e` with `m` of at most 53 bits and `e ≥ -1074`, below
`2^1024` in absolute value.  `rounded x` is the double closest to `x`, of two
that are equally close the one with the even last bit.  What is too large
becomes `±2^1024`, the first number that is no finite double; it stands for an
infinity.

What is proved about arithmetic on doubles follows from two facts:

* `rounded_mono`: rounding keeps the order;
* `IsDouble.rounded_eq`: it keeps doubles.

The scale on which `x` is rounded is that of the last bit, `2^grain x`.  It grows
with `x`, and where it jumps stands a power of two, a double that rounding on
either scale keeps on its side (`magnitude_mono`).
-/

import Mathlib.Algebra.Order.Field.Power
import Mathlib.Data.Int.Log
import Mathlib.Data.Rat.Floor
import Mathlib.Tactic.FieldSimp
import Mathlib.Tactic.Linarith
import Mathlib.Tactic.NormNum
import Mathlib.Tactic.Positivity
import Mathlib.Tactic.Ring

namespace GlobeView
namespace Exact

/-! ### To the closest natural -/

/-- The natural closest to `x ≥ 0`, a half going to the even neighbour. -/
def halfEven (x : ℚ) : ℕ :=
  if Int.fract x < 1 / 2 then ⌊x⌋₊
  else if Int.fract x = 1 / 2 then ⌊x⌋₊ + ⌊x⌋₊ % 2
  else ⌊x⌋₊ + 1

/-- The closest natural is not below the floor. -/
theorem floor_le_halfEven (x : ℚ) : ⌊x⌋₊ ≤ halfEven x := by
  unfold halfEven
  split_ifs <;> omega

/-- The closest natural is at most one above the floor. -/
theorem halfEven_le_floor_succ (x : ℚ) : halfEven x ≤ ⌊x⌋₊ + 1 := by
  unfold halfEven
  split_ifs <;> omega

/-- A natural is closest to itself. -/
@[simp]
theorem halfEven_natCast (n : ℕ) : halfEven (n : ℚ) = n := by
  simp [halfEven]

/-- The closest naturals are in the order of the numbers. -/
theorem halfEven_mono {x y : ℚ} (hx : 0 ≤ x) (hxy : x ≤ y) : halfEven x ≤ halfEven y := by
  rcases (Nat.floor_mono hxy).lt_or_eq with hlt | heq
  · calc
      halfEven x ≤ ⌊x⌋₊ + 1 := halfEven_le_floor_succ x
      _ ≤ ⌊y⌋₊ := hlt
      _ ≤ halfEven y := floor_le_halfEven y
  · -- With the same floor the fractions decide.
    have hfloor : ⌊x⌋ = ⌊y⌋ := by
      rw [← Int.natCast_floor_eq_floor hx, ← Int.natCast_floor_eq_floor (hx.trans hxy), heq]
    have hfract : Int.fract x ≤ Int.fract y := by
      rw [Int.fract, Int.fract, hfloor]
      linarith
    unfold halfEven
    rw [heq]
    split_ifs
    all_goals grind

/-- A natural that is not exceeded is not exceeded by the closest natural. -/
theorem halfEven_le_of_le {x : ℚ} {n : ℕ} (hx : 0 ≤ x) (h : x ≤ n) : halfEven x ≤ n := by
  have := halfEven_mono hx h
  rwa [halfEven_natCast] at this

/-- A natural that is reached is reached by the closest natural. -/
theorem le_halfEven_of_le {x : ℚ} {n : ℕ} (h : (n : ℚ) ≤ x) : n ≤ halfEven x := by
  have := halfEven_mono n.cast_nonneg h
  rwa [halfEven_natCast] at this

/-! ### To the last bit -/

/-- The exponent of the last bit that a double close to `x` has. -/
def grain (x : ℚ) : ℤ :=
  max (Int.log 2 x - 52) (-1074)

/-- The last bit of a greater number is no finer. -/
theorem grain_mono {x y : ℚ} (hx : 0 < x) (hxy : x ≤ y) : grain x ≤ grain y := by
  have := Int.log_mono_right (b := 2) hx hxy
  unfold grain
  omega

/-- The mantissa has at most 53 bits, or is the first number with more. -/
theorem halfEven_div_grain_le {x : ℚ} (hx : 0 < x) : halfEven (x / 2 ^ grain x) ≤ 2 ^ 53 := by
  -- In units of its last bit a number has 53 bits at most.
  have hlt : x < 2 ^ (grain x + 53) := by
    refine (Int.lt_zpow_iff_log_lt one_lt_two hx).2 ?_
    unfold grain
    omega
  have hle : x / 2 ^ grain x ≤ (2 ^ 53 : ℕ) := by
    rw [div_le_iff₀ (by positivity)]
    refine hlt.le.trans (le_of_eq ?_)
    rw [zpow_add₀ two_ne_zero]
    push_cast
    ring
  exact halfEven_le_of_le (by positivity) hle

/-- Unless the scale is the finest one, the mantissa has all 53 bits. -/
theorem le_halfEven_div_grain {x : ℚ} (hx : 0 < x) (h : grain x ≠ -1074) :
    2 ^ 52 ≤ halfEven (x / 2 ^ grain x) := by
  -- Above the finest scale the first of the 53 bits is set.
  have hle : (2 : ℚ) ^ (grain x + 52) ≤ x := by
    refine (Int.zpow_le_iff_le_log one_lt_two hx).2 ?_
    unfold grain at h ⊢
    omega
  have hdiv : ((2 ^ 52 : ℕ) : ℚ) ≤ x / 2 ^ grain x := by
    rw [le_div_iff₀ (by positivity)]
    refine le_trans (le_of_eq ?_) hle
    rw [zpow_add₀ two_ne_zero]
    push_cast
    ring
  exact le_halfEven_of_le hdiv

/-- The double closest to `x ≥ 0`, as if exponents had no upper bound. -/
def magnitude (x : ℚ) : ℚ :=
  halfEven (x / 2 ^ grain x) * 2 ^ grain x

/-- A magnitude is not negative. -/
theorem magnitude_nonneg (x : ℚ) : 0 ≤ magnitude x := by
  unfold magnitude
  positivity

/-- Zero is a double. -/
@[simp]
theorem magnitude_zero : magnitude 0 = 0 := by
  simp [magnitude, halfEven]

/-- Rounding keeps the order of magnitudes, also where the last bit becomes coarser. -/
theorem magnitude_mono {x y : ℚ} (hx : 0 ≤ x) (hxy : x ≤ y) : magnitude x ≤ magnitude y := by
  rcases hx.eq_or_lt with rfl | hpos
  · rw [magnitude_zero]
    exact magnitude_nonneg y
  rcases (grain_mono hpos hxy).eq_or_lt with heq | hlt
  · unfold magnitude
    rw [heq]
    have hdiv : x / 2 ^ grain y ≤ y / 2 ^ grain y := by gcongr
    have hround := halfEven_mono (by positivity) hdiv
    have : (halfEven (x / 2 ^ grain y) : ℚ) ≤ halfEven (y / 2 ^ grain y) := by exact_mod_cast hround
    gcongr
  · -- Between the two scales lies `2^(52 + grain y)`, which `x` stays below and `y` above.
    obtain ⟨k, hk⟩ : ∃ k : ℕ, grain y + 52 = grain x + k :=
      ⟨(grain y + 52 - grain x).toNat, by omega⟩
    have hsplit : (2 : ℚ) ^ (grain y + 52) = (2 ^ k : ℕ) * 2 ^ grain x := by
      rw [hk, zpow_add₀ two_ne_zero, zpow_natCast]
      push_cast
      ring
    have hbelow : x < 2 ^ (grain y + 52) := by
      refine (Int.lt_zpow_iff_log_lt one_lt_two hpos).2 ?_
      unfold grain at hlt ⊢
      omega
    have hleft : halfEven (x / 2 ^ grain x) ≤ 2 ^ k := by
      refine halfEven_le_of_le (by positivity) ?_
      rw [div_le_iff₀ (by positivity), ← hsplit]
      exact hbelow.le
    have hright : 2 ^ 52 ≤ halfEven (y / 2 ^ grain y) := by
      refine le_halfEven_div_grain (hpos.trans_le hxy) ?_
      unfold grain at hlt ⊢
      omega
    calc
      magnitude x ≤ (2 ^ k : ℕ) * 2 ^ grain x := by
        unfold magnitude
        have : (halfEven (x / 2 ^ grain x) : ℚ) ≤ (2 ^ k : ℕ) := by exact_mod_cast hleft
        gcongr
      _ = (2 ^ 52 : ℕ) * 2 ^ grain y := by
        rw [← hsplit, zpow_add₀ two_ne_zero]
        push_cast
        ring
      _ ≤ magnitude y := by
        unfold magnitude
        have : ((2 ^ 52 : ℕ) : ℚ) ≤ halfEven (y / 2 ^ grain y) := by exact_mod_cast hright
        gcongr

/-- What has at most 53 bits is on the grid it would be rounded to. -/
theorem grain_le {m : ℕ} {e : ℤ} (hpos : 0 < m) (hm : m < 2 ^ 53) (he : -1074 ≤ e) :
    grain (m * 2 ^ e) ≤ e := by
  have hmq : (0 : ℚ) < m := by exact_mod_cast hpos
  have hlt : (m : ℚ) * 2 ^ e < 2 ^ (53 + e) := by
    rw [zpow_add₀ two_ne_zero]
    have : (m : ℚ) < 2 ^ (53 : ℤ) := by exact_mod_cast hm
    gcongr
  have := (Int.lt_zpow_iff_log_lt one_lt_two (by positivity)).1 hlt
  unfold grain
  omega

/-- A number of 53 bits on a scale that is fine enough is left as it is. -/
theorem magnitude_natCast_mul {m : ℕ} {e : ℤ} (hm : m < 2 ^ 53) (he : -1074 ≤ e) :
    magnitude (m * 2 ^ e) = m * 2 ^ e := by
  rcases m.eq_zero_or_pos with rfl | hpos
  · simp
  have hle := grain_le hpos hm he
  generalize hg : grain (m * 2 ^ e) = g at hle
  -- The scale is at least as coarse as the last bit, so the number is whole in its units.
  obtain ⟨k, hk⟩ : ∃ k : ℕ, e = g + k := ⟨(e - g).toNat, by omega⟩
  have hwhole : (m : ℚ) * 2 ^ e / 2 ^ g = (m * 2 ^ k : ℕ) := by
    rw [hk, zpow_add₀ two_ne_zero, zpow_natCast]
    push_cast
    field_simp
  unfold magnitude
  rw [hg, hwhole, halfEven_natCast, ← hwhole]
  field_simp

/-! ### Both signs, and numbers that are too large -/

/-- The first number that is too large for a finite double. -/
@[irreducible]
def limit : ℚ :=
  2 ^ 1024

/-- The limit is positive, so the range around zero is not empty. -/
theorem limit_pos : 0 < limit := by
  unfold limit
  positivity

/-- `x` held inside `[-limit, limit]`. -/
def limited (x : ℚ) : ℚ :=
  max (-limit) (min limit x)

/-- Holding numbers inside the limits keeps their order. -/
theorem limited_mono : Monotone limited := by
  intro x y hxy
  exact max_le_max le_rfl (min_le_min le_rfl hxy)

/-- The limits lie at the same distance from zero. -/
theorem limited_neg (x : ℚ) : limited (-x) = -limited x := by
  have := limit_pos
  unfold limited
  rcases le_total x limit with hx | hx <;> rcases le_total (-limit) x with hx' | hx'
  all_goals grind

/-- Numbers inside the limits are left as they are. -/
theorem limited_of_abs_le {x : ℚ} (h : |x| ≤ limit) : limited x = x := by
  obtain ⟨hlow, hhigh⟩ := abs_le.1 h
  rw [limited, min_eq_right hhigh, max_eq_right hlow]

/-- The double closest to `x`, as if exponents had no upper bound. -/
def unlimited (x : ℚ) : ℚ :=
  if 0 ≤ x then magnitude x else -magnitude (-x)

/-- Rounding to 53 bits keeps the order. -/
theorem unlimited_mono : Monotone unlimited := by
  intro x y hxy
  unfold unlimited
  split_ifs with hx hy hy
  · exact magnitude_mono hx hxy
  · linarith
  · have := magnitude_nonneg (-x)
    have := magnitude_nonneg y
    linarith
  · have := magnitude_mono (x := -y) (y := -x) (by linarith) (by linarith)
    linarith

/-- Rounding to 53 bits treats both signs alike. -/
theorem unlimited_neg (x : ℚ) : unlimited (-x) = -unlimited x := by
  unfold unlimited
  rcases lt_trichotomy x 0 with h | rfl | h
  · rw [if_pos (by linarith), if_neg (by linarith), neg_neg]
  · simp
  · rw [if_neg (by linarith), if_pos h.le, neg_neg]

/-- The double closest to `x`; too large numbers become `±limit`. -/
def rounded (x : ℚ) : ℚ :=
  limited (unlimited x)

/-- **Rounding keeps the order.** -/
theorem rounded_mono : Monotone rounded := by
  intro x y hxy
  exact limited_mono (unlimited_mono hxy)

/-- Rounding treats both signs alike. -/
theorem rounded_neg (x : ℚ) : rounded (-x) = -rounded x := by
  rw [rounded, unlimited_neg, limited_neg, rounded]

/-- Zero is left as it is. -/
theorem rounded_zero : rounded 0 = 0 := by
  have h := rounded_neg 0
  rw [neg_zero] at h
  linarith

/-- No number that is not positive is rounded to a positive one. -/
theorem rounded_nonpos {x : ℚ} (h : x ≤ 0) : rounded x ≤ 0 := by
  have hround := rounded_mono h
  rwa [rounded_zero] at hround

/-- The number has at most 53 bits, the last of them no finer than `2^-1074`. -/
def IsDouble (x : ℚ) : Prop :=
  ∃ (m : ℕ) (e : ℤ), m < 2 ^ 53 ∧ -1074 ≤ e ∧ |x| = m * 2 ^ e

/-- A number of 53 bits is left as it is. -/
theorem IsDouble.unlimited_eq {x : ℚ} (hx : IsDouble x) : unlimited x = x := by
  obtain ⟨m, e, hm, he, habs⟩ := hx
  have hmag : magnitude |x| = |x| := by rw [habs, magnitude_natCast_mul hm he]
  unfold unlimited
  split_ifs with h
  · rwa [abs_of_nonneg h] at hmag
  · rw [abs_of_neg (not_le.1 h)] at hmag
    rw [hmag, neg_neg]

/-- **Rounding keeps doubles.** -/
theorem IsDouble.rounded_eq {x : ℚ} (hx : IsDouble x) (hle : |x| ≤ limit) : rounded x = x := by
  rw [rounded, hx.unlimited_eq, limited_of_abs_le hle]

/-! ### Differences -/

/-- The smallest positive double. -/
def smallest : ℚ :=
  2 ^ (-1074 : ℤ)

/-- The smallest positive double is positive. -/
theorem smallest_pos : 0 < smallest := by
  unfold smallest
  positivity

/-- The smallest positive double is left as it is. -/
theorem rounded_smallest : rounded smallest = smallest := by
  have hdouble : IsDouble smallest := by
    refine ⟨1, -1074, by norm_num, le_rfl, ?_⟩
    rw [abs_of_pos smallest_pos, Nat.cast_one, one_mul, smallest]
  refine hdouble.rounded_eq ?_
  rw [abs_of_pos smallest_pos, smallest, limit, ← zpow_natCast]
  exact zpow_le_zpow_right₀ one_le_two (by norm_num)

/-- A double is a multiple of every power of two that is no larger than its last bit. -/
theorem exists_mul_zpow {x : ℚ} {m : ℕ} {e k : ℤ} (hx : |x| = m * 2 ^ e) (hk : k ≤ e) :
    ∃ n : ℤ, x = n * 2 ^ k := by
  obtain ⟨j, rfl⟩ : ∃ j : ℕ, e = j + k := ⟨(e - k).toNat, by omega⟩
  have hmul : |x| = (m * 2 ^ j : ℤ) * 2 ^ k := by
    rw [hx, zpow_add₀ two_ne_zero, zpow_natCast, ← mul_assoc, Int.cast_mul, Int.cast_natCast,
      Int.cast_pow, Int.cast_ofNat]
  rcases abs_choice x with h | h
  · exact ⟨m * 2 ^ j, by rw [← h, hmul]⟩
  · exact ⟨-(m * 2 ^ j), by rw [← neg_neg x, ← h, hmul, Int.cast_neg, neg_mul]⟩

/-- Doubles are multiples of the smallest one. -/
theorem IsDouble.exists_mul_smallest {x : ℚ} (hx : IsDouble x) : ∃ n : ℤ, x = n * smallest := by
  obtain ⟨m, e, -, he, habs⟩ := hx
  exact exists_mul_zpow habs he

/-- A double without places behind the point is an integer, and every other one is small. -/
theorem floor_eq_or_abs_lt {x : ℚ} {m : ℕ} {e : ℤ} (hm : m < 2 ^ 53) (hx : |x| = m * 2 ^ e) :
    (0 ≤ e ∧ ((⌊x⌋ : ℤ) : ℚ) = x) ∨ (e < 0 ∧ |x| < 2 ^ 52) := by
  -- On a scale of whole numbers, or with at least one bit behind the point.
  rcases le_or_gt 0 e with he | he
  · obtain ⟨n, rfl⟩ := exists_mul_zpow hx he
    rw [zpow_zero, mul_one, Int.floor_intCast]
    exact .inl ⟨he, rfl⟩
  · have hmq : (m : ℚ) < 2 ^ (53 : ℤ) := by exact_mod_cast hm
    have hpow : (2 : ℚ) ^ e ≤ 2 ^ (-1 : ℤ) := zpow_le_zpow_right₀ one_le_two (by omega)
    refine .inr ⟨he, ?_⟩
    calc
      |x| = m * 2 ^ e := hx
      _ < 2 ^ (53 : ℤ) * 2 ^ (-1 : ℤ) := mul_lt_mul hmq hpow (by positivity) (by positivity)
      _ = 2 ^ 52 := by norm_num

/-- **Rounding keeps distinct doubles apart:** their difference is at least the smallest double. -/
theorem IsDouble.rounded_sub_pos {x y : ℚ} (hx : IsDouble x) (hy : IsDouble y) (h : x < y) :
    0 < rounded (y - x) := by
  obtain ⟨n, rfl⟩ := hx.exists_mul_smallest
  obtain ⟨m, rfl⟩ := hy.exists_mul_smallest
  have hlt : n < m := by exact_mod_cast lt_of_mul_lt_mul_right h smallest_pos.le
  -- Both are multiples of the smallest double, so their difference is at least that.
  have hone : (1 : ℚ) ≤ m - n := by exact_mod_cast (by omega : 1 ≤ m - n)
  have hle : smallest ≤ m * smallest - n * smallest := by
    rw [← sub_mul]
    exact le_mul_of_one_le_left smallest_pos.le hone
  have hround := rounded_mono hle
  rw [rounded_smallest] at hround
  exact smallest_pos.trans_le hround

end Exact
end GlobeView

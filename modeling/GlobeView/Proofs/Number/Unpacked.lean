/-
# Arithmetic on unpacked doubles

`value u` is the number an unpacked double stands for; infinities are worth
`±limit`, so that values are ordered as doubles are, and NaN is worth nothing in
particular.  A finite double is `Canonical` when its exponent is the one its
format asks for.

The sum, the difference, the product and the quotient of canonical doubles are
canonical again, and worth the exact result rounded to 53 bits (`Denotes`).
-/

import GlobeView.Proofs.Number.Mantissa

namespace GlobeView
namespace Exact

open Float.Model UnpackedFloat

/-! ### Signs -/

/-- The number with the sign in front. -/
def signed (s : Sign) (x : ℚ) : ℚ :=
  match s with
  | .negative => -x
  | .positive => x

/-- A sign is applied to an integer as it is to a number. -/
theorem cast_apply (s : Sign) (n : ℤ) : ((s.apply n : ℤ) : ℚ) = signed s n := by
  cases s
  · exact Int.cast_neg n
  · rfl

/-- Zero has no sign as a number. -/
@[simp]
theorem signed_zero (s : Sign) : signed s 0 = 0 := by
  cases s <;> simp [signed]

/-- A sign does not change the magnitude. -/
@[simp]
theorem abs_signed (s : Sign) (x : ℚ) : |signed s x| = |x| := by
  cases s <;> simp [signed]

/-- The opposite sign gives the opposite number. -/
theorem signed_neg (s : Sign) (x : ℚ) : signed (-s) x = -signed s x := by
  cases s
  · exact (neg_neg x).symm
  · rfl

/-- The sign of a product is the product of the signs. -/
theorem signed_mul (s t : Sign) (x y : ℚ) : signed (s * t) (x * y) = signed s x * signed t y := by
  cases s <;> cases t
  · exact (neg_mul_neg x y).symm
  · exact (neg_mul x y).symm
  · exact (mul_neg x y).symm
  · rfl

/-- The sign of a quotient is the quotient of the signs. -/
theorem signed_div (s t : Sign) (x y : ℚ) : signed (s / t) (x / y) = signed s x / signed t y := by
  cases s <;> cases t
  · exact (neg_div_neg_eq x y).symm
  · exact (neg_div y x).symm
  · exact (div_neg x).symm
  · rfl

/-- A factor without a sign leaves the sign as it is. -/
theorem signed_mul_right (s : Sign) (x y : ℚ) : signed s x * y = signed s (x * y) := by
  cases s <;> simp [signed]

/-- Rounding keeps the sign and rounds the magnitude. -/
theorem unlimited_signed (s : Sign) {x : ℚ} (hx : 0 ≤ x) :
    unlimited (signed s x) = signed s (magnitude x) := by
  have hpos : unlimited x = magnitude x := if_pos hx
  cases s
  · rw [signed, unlimited_neg, hpos, signed]
  · exact hpos

/-! ### Values -/

/-- What an unpacked double stands for. -/
def value : UnpackedFloat → ℚ
  | .notANumber => 0
  | .infinity s => signed s limit
  | .zero _ => 0
  | .finite s m e _ => signed s (m * 2 ^ e)

/-- An infinity stands for the limit, so that it is above all finite doubles. -/
@[simp]
theorem value_infinity (s : Sign) : value (.infinity s) = signed s limit := rfl

/-- Both zeros stand for zero. -/
@[simp]
theorem value_zero (s : Sign) : value (.zero s) = 0 := rfl

/-- A finite double stands for its mantissa, scaled and with its sign. -/
@[simp]
theorem value_finite (s : Sign) (m : ℕ) (e : ℤ) (hm : 0 < m) :
    value (.finite s m e hm) = signed s (m * 2 ^ e) := rfl

/-- A finite double whose exponent is as small as 53 bits and the finest scale allow. -/
def Canonical : UnpackedFloat → Prop
  | .zero _ => True
  | .finite _ m e _ => m < 2 ^ 53 ∧ -1074 ≤ e ∧ (2 ^ 52 ≤ m ∨ e = -1074)
  | _ => False

/-- The unpacked double is canonical and stands for `x`. -/
structure Denotes (u : UnpackedFloat) (x : ℚ) : Prop where
  canonical : Canonical u
  value_eq : value u = x

/-- What canonical doubles stand for is left as it is by rounding. -/
theorem Canonical.isDouble {u : UnpackedFloat} (h : Canonical u) : IsDouble (value u) := by
  cases u with
  | zero s => exact ⟨0, 0, by norm_num, by norm_num, by simp⟩
  | finite s m e hm =>
    refine ⟨m, e, h.1, h.2.1, ?_⟩
    rw [value_finite, abs_signed, abs_of_pos (by positivity)]
  | infinity s => exact h.elim
  | notANumber => exact h.elim

/-- A canonical double stands for a number that rounding leaves as it is. -/
theorem Canonical.denotes_self {u : UnpackedFloat} (h : Canonical u) :
    Denotes u (unlimited (value u)) :=
  ⟨h, h.isDouble.unlimited_eq.symm⟩

/-- A zero is worth the rounded number zero. -/
theorem denotes_zero (s : Sign) {x : ℚ} (hx : x = 0) : Denotes (.zero s) (unlimited x) := by
  rw [hx]
  exact Canonical.denotes_self (u := .zero s) trivial

/-! ### Rounding a mantissa -/

/-- The last of 53 bits, but no bit that is finer than `2^-1074`. -/
theorem targetExponent_eq (t : ℤ) : Format.binary64.targetExponent t = max (t - 53) (-1074) := rfl

/-- The exponent that the format asks for is that of the last bit of the exact number. -/
theorem targetExponent_floor {x : ℚ} {e : ℤ} (hx : 0 < x) (he : e ≤ grain x) :
    Format.binary64.targetExponent (totalExponent ⌊x / 2 ^ e⌋₊ e) = grain x := by
  rw [targetExponent_eq, totalExponent]
  have hdiv : 0 ≤ x / 2 ^ e := by positivity
  -- A number that is smaller than its last bit is on the finest scale.
  rcases Nat.eq_zero_or_pos ⌊x / 2 ^ e⌋₊ with h | h
  · have hlt : x < 2 ^ e := by
      rw [← one_mul ((2 : ℚ) ^ e), ← div_lt_iff₀ (by positivity)]
      exact Nat.floor_eq_zero.1 h
    have hlog := (Int.lt_zpow_iff_log_lt one_lt_two hx).1 hlt
    rw [h, Nat.log2_zero]
    unfold grain at he ⊢
    omega
  · -- The number of bits of the whole part is that of the number, up to the scale.
    have hlow : (2 : ℚ) ^ (⌊x / 2 ^ e⌋₊.log2 + e : ℤ) ≤ x := by
      have hpow : (2 : ℚ) ^ ⌊x / 2 ^ e⌋₊.log2 ≤ ⌊x / 2 ^ e⌋₊ := by
        exact_mod_cast Nat.log2_self_le h.ne'
      rw [zpow_add₀ two_ne_zero, zpow_natCast, ← le_div_iff₀ (by positivity)]
      exact hpow.trans (Nat.floor_le hdiv)
    have hhigh : x < (2 : ℚ) ^ (⌊x / 2 ^ e⌋₊.log2 + 1 + e : ℤ) := by
      have hpow : (⌊x / 2 ^ e⌋₊ : ℚ) + 1 ≤ 2 ^ (⌊x / 2 ^ e⌋₊.log2 + 1) := by
        exact_mod_cast Nat.lt_log2_self
      rw [zpow_add₀ two_ne_zero, ← div_lt_iff₀ (by positivity)]
      exact (Nat.lt_floor_add_one _).trans_le (by exact_mod_cast hpow)
    have h₁ := (Int.zpow_le_iff_le_log one_lt_two hx).1 (by exact_mod_cast hlow)
    have h₂ := (Int.lt_zpow_iff_log_lt one_lt_two hx).1 (by exact_mod_cast hhigh)
    unfold grain
    omega

/-- A mantissa of at most 53 bits on an admissible scale is left as it is. -/
theorem shiftToTargetExponent_of_lt {m : ℕ} {e : ℤ} (hm : m < 2 ^ 53) (he : -1074 ≤ e) :
    shiftToTargetExponent .binary64 m e .exact = (⟨m, false, false⟩, e) := by
  have hlog : m.log2 < 53 := by
    rcases m.eq_zero_or_pos with rfl | hpos
    · decide
    · exact (Nat.log2_lt hpos.ne').2 hm
  -- There are not too many bits, so nothing is shifted out.
  have hnone : (Format.binary64.targetExponent (totalExponent m e) - e).toNat = 0 := by
    rw [targetExponent_eq, totalExponent]
    omega
  unfold shiftToTargetExponent shiftToExponent
  dsimp only
  rw [hnone, Nat.cast_zero, add_zero]
  rfl

/-- A mantissa that rounding carried to 54 bits loses its last one, which is zero. -/
theorem shiftToTargetExponent_two_pow {e : ℤ} (he : -1074 ≤ e) :
    shiftToTargetExponent .binary64 (2 ^ 53) e .exact = (⟨2 ^ 52, false, false⟩, e + 1) := by
  have hone : (Format.binary64.targetExponent (totalExponent (2 ^ 53) e) - e).toNat = 1 := by
    rw [targetExponent_eq, totalExponent, Nat.log2_two_pow]
    omega
  unfold shiftToTargetExponent shiftToExponent
  dsimp only
  rw [hone]
  rfl

/-- What the second shift makes of a rounded mantissa. -/
theorem denotes_shifted (s : Sign) {M : ℕ} {e : ℤ} (hM : M ≤ 2 ^ 53) (he : -1074 ≤ e)
    (hnormal : e ≠ -1074 → 2 ^ 52 ≤ M) :
    let shifted := shiftToTargetExponent .binary64 M e .exact
    Denotes
      (if h : shifted.1.mantissa = 0 then .zero s
        else .finite s shifted.1.mantissa shifted.2 (Nat.pos_of_ne_zero h))
      (signed s (M * 2 ^ e)) := by
  intro shifted
  -- Rounding up may give one bit too many, which is then a zero and can be shifted out.
  rcases hM.lt_or_eq with hlt | rfl
  · have hshifted : shifted = (⟨M, false, false⟩, e) := shiftToTargetExponent_of_lt hlt he
    rw [hshifted]
    dsimp only
    by_cases hzero : M = 0
    · rw [dif_pos hzero]
      exact ⟨trivial, by simp [hzero]⟩
    · rw [dif_neg hzero]
      exact ⟨⟨hlt, he, or_iff_not_imp_right.2 hnormal⟩, rfl⟩
  · -- All 53 bits and one more are `2 ^ 53`, of which one zero is shifted out.
    have hshifted : shifted = (⟨2 ^ 52, false, false⟩, e + 1) := shiftToTargetExponent_two_pow he
    rw [hshifted, dif_neg (by norm_num)]
    refine ⟨⟨by norm_num, by omega, .inl le_rfl⟩, ?_⟩
    rw [value_finite, zpow_add_one₀ two_ne_zero]
    congr 1
    push_cast
    ring

/-- **Whatever the mantissa was found by, rounding it gives the closest double.** -/
theorem roundWithAccuracy_denotes (s : Sign) {m : ℕ} {e : ℤ} {accuracy : Accuracy} {x : ℚ}
    (hx : 0 < x) (he : e ≤ grain x)
    (hm : ExtendedMantissa.ofMantissaAndAccuracy m accuracy = extended (x / 2 ^ e)) :
    Denotes (roundWithAccuracy .binary64 s m e accuracy) (unlimited (signed s x)) := by
  rw [unlimited_signed s hx.le]
  have hmantissa : m = ⌊x / 2 ^ e⌋₊ := by
    have := congrArg ExtendedMantissa.mantissa hm
    rcases accuracy with _ | _ | _ | _ <;> exact this
  -- The first shift goes to the last bit of the number itself.
  have hfirst : shiftToTargetExponent .binary64 m e accuracy
      = (extended (x / 2 ^ grain x), grain x) := by
    obtain ⟨k, hk⟩ : ∃ k : ℕ, grain x = e + k := ⟨(grain x - e).toNat, by omega⟩
    unfold shiftToTargetExponent shiftToExponent
    dsimp only
    rw [hmantissa, targetExponent_floor hx he, ← hmantissa, hm, hk, add_sub_cancel_left,
      Int.toNat_natCast, shiftRight_extended (by positivity), div_div, zpow_add₀ two_ne_zero,
      zpow_natCast]
  have hrounded := roundedMantissa_extended (x / 2 ^ grain x)
  -- What is rounded has 53 bits, or one more when it was rounded up.
  have hle := halfEven_div_grain_le hx
  have hnormal := le_halfEven_div_grain hx
  unfold magnitude roundWithAccuracy
  rw [hfirst]
  rw [← hrounded] at hle hnormal ⊢
  exact denotes_shifted s hle (le_max_right _ _) hnormal

/-- The scale of a natural with an exponent. -/
theorem grain_natCast_mul {m : ℕ} (hm : 0 < m) (e : ℤ) :
    grain (m * 2 ^ e) = max (m.log2 + e - 52) (-1074) := by
  have hmq : (0 : ℚ) < m := by exact_mod_cast hm
  -- The number of bits of the mantissa tells between which powers of two the number lies.
  have hlow : (2 : ℚ) ^ (m.log2 + e : ℤ) ≤ m * 2 ^ e := by
    have hpow : (2 : ℚ) ^ m.log2 ≤ m := by exact_mod_cast Nat.log2_self_le hm.ne'
    rw [zpow_add₀ two_ne_zero, zpow_natCast]
    gcongr
  have hhigh : (m : ℚ) * 2 ^ e < 2 ^ (m.log2 + 1 + e : ℤ) := by
    have hpow : (m : ℚ) < 2 ^ (m.log2 + 1 : ℤ) := by exact_mod_cast Nat.lt_log2_self
    rw [zpow_add₀ two_ne_zero]
    gcongr
  have hpos : 0 < (m : ℚ) * 2 ^ e := by positivity
  have h₁ := (Int.zpow_le_iff_le_log one_lt_two hpos).1 (by exact_mod_cast hlow)
  have h₂ := (Int.lt_zpow_iff_log_lt one_lt_two hpos).1 (by exact_mod_cast hhigh)
  unfold grain
  omega

/-- Decreasing the exponent leaves the number as it is. -/
theorem decreaseExponent_fst {m : ℕ} {e target : ℤ} (h : target ≤ e) :
    ((decreaseExponent m e target).1 : ℚ) * 2 ^ target = m * 2 ^ e := by
  obtain ⟨k, hk⟩ : ∃ k : ℕ, e = target + k := ⟨(e - target).toNat, by omega⟩
  have hshift : (decreaseExponent m e target).1 = m * 2 ^ k := by
    rw [decreaseExponent, hk, add_sub_cancel_left, Int.toNat_natCast, Nat.shiftLeft_eq]
  rw [hshift, hk, zpow_add₀ two_ne_zero, zpow_natCast]
  push_cast
  ring

/-- **What is rounded stands for the closest double,** if no exponent is too large. -/
theorem round_denotes (s : Sign) {m : ℕ} (hm : 0 < m) (e : ℤ) :
    Denotes (UnpackedFloat.round .binary64 s m e) (unlimited (signed s (m * 2 ^ e))) := by
  have hmq : (0 : ℚ) < m := by exact_mod_cast hm
  have htarget : Format.binary64.targetExponent (totalExponent m e) = grain (m * 2 ^ e) := by
    rw [grain_natCast_mul hm, targetExponent_eq, totalExponent]
    omega
  unfold UnpackedFloat.round decreaseExponent
  dsimp only
  rw [htarget]
  generalize hk : (e - grain (m * 2 ^ e)).toNat = k
  refine roundWithAccuracy_denotes s (by positivity) (by omega) ?_
  -- Making the exponent smaller loses nothing.
  have hshift : (m : ℚ) * 2 ^ e / 2 ^ (e - k : ℤ) = (m <<< k : ℕ) := by
    rw [mul_div_assoc, ← zpow_sub₀ two_ne_zero, sub_sub_cancel, zpow_natCast, Nat.shiftLeft_eq]
    push_cast
    rfl
  rw [hshift, ofMantissaAndAccuracy_exact]

/-- An integer on any scale is rounded to the closest double. -/
theorem normalize_denotes (n e : ℤ) (zeroSign : Sign) :
    Denotes (UnpackedFloat.normalize .binary64 n e zeroSign) (unlimited (n * 2 ^ e)) := by
  unfold UnpackedFloat.normalize
  -- The sign is taken off, and the magnitude is rounded.
  rcases lt_trichotomy n 0 with h | rfl | h
  · have habs : (((-n).toNat : ℕ) : ℚ) = -n := by exact_mod_cast Int.toNat_of_nonneg (by omega)
    have hround := round_denotes .negative (m := (-n).toNat) (by omega) e
    rw [compare_lt_iff_lt.2 h]
    rwa [habs, signed, neg_mul, neg_neg] at hround
  · exact denotes_zero _ (by simp)
  · have habs : ((n.toNat : ℕ) : ℚ) = n := by exact_mod_cast Int.toNat_of_nonneg h.le
    have hround := round_denotes .positive (m := n.toNat) (by omega) e
    rw [compare_gt_iff_gt.2 h]
    rwa [habs, signed] at hround

/-! ### Operations -/

section

variable {u v : UnpackedFloat}

/-- The sum and the difference of finite doubles are found on the smaller exponent. -/
theorem normalize_decreaseExponent {f : ℤ → ℤ → ℤ} {g : ℚ → ℚ → ℚ}
    (hf : ∀ a b : ℤ, ((f a b : ℤ) : ℚ) = g a b) (hg : ∀ a b c, g a b * c = g (a * c) (b * c))
    (s₁ s₂ : Sign) (m₁ m₂ : ℕ) (e₁ e₂ : ℤ) :
    Denotes (UnpackedFloat.normalize .binary64 (f (s₁.apply (decreaseExponent m₁ e₁ (min e₁ e₂)).1)
        (s₂.apply (decreaseExponent m₂ e₂ (min e₁ e₂)).1)) (min e₁ e₂) .positive)
      (unlimited (g (signed s₁ (m₁ * 2 ^ e₁)) (signed s₂ (m₂ * 2 ^ e₂)))) := by
  have h := normalize_denotes (f (s₁.apply (decreaseExponent m₁ e₁ (min e₁ e₂)).1)
    (s₂.apply (decreaseExponent m₂ e₂ (min e₁ e₂)).1)) (min e₁ e₂) .positive
  rw [hf, hg, cast_apply, cast_apply, signed_mul_right, signed_mul_right] at h
  push_cast at h
  rwa [decreaseExponent_fst (min_le_left e₁ e₂), decreaseExponent_fst (min_le_right e₁ e₂)] at h

/-- A sum stands for the rounded sum. -/
theorem add_denotes (hu : Canonical u) (hv : Canonical v) :
    Denotes (UnpackedFloat.add .binary64 u v) (unlimited (value u + value v)) := by
  -- Adding a zero needs no rounding; only the sign of two zeros has to be looked at.
  cases u with
  | zero s =>
    rw [value_zero, zero_add]
    cases v with
    | zero t =>
      -- The sum of two zeros is one of them.
      have hzero : ∃ r, UnpackedFloat.add .binary64 (.zero s) (.zero t) = .zero r := by
        cases s <;> cases t <;> exact ⟨_, rfl⟩
      obtain ⟨r, hr⟩ := hzero
      rw [hr]
      exact denotes_zero r (value_zero t)
    | finite t m e hm => exact hv.denotes_self
    | infinity t => exact hv.elim
    | notANumber => exact hv.elim
  | finite s m e hm =>
    cases v with
    | zero t =>
      rw [value_zero, add_zero]
      exact hu.denotes_self
    | finite t m' e' hm' => exact normalize_decreaseExponent Int.cast_add add_mul s t m m' e e'
    | infinity t => exact hv.elim
    | notANumber => exact hv.elim
  | infinity s => exact hu.elim
  | notANumber => exact hu.elim

/-- A difference stands for the rounded difference. -/
theorem sub_denotes (hu : Canonical u) (hv : Canonical v) :
    Denotes (UnpackedFloat.sub .binary64 u v) (unlimited (value u - value v)) := by
  -- Subtracting from zero changes the sign, and subtracting zero changes nothing.
  cases u with
  | zero s =>
    rw [value_zero, zero_sub]
    cases v with
    | zero t =>
      have hzero : ∃ r, UnpackedFloat.sub .binary64 (.zero s) (.zero t) = .zero r := by
        cases s <;> cases t <;> exact ⟨_, rfl⟩
      obtain ⟨r, hr⟩ := hzero
      rw [hr]
      exact denotes_zero r neg_zero
    | finite t m e hm =>
      -- The sign has no part in being canonical.
      have hneg : Canonical (.finite (-t) m e hm) := hv
      have hvalue : value (.finite (-t) m e hm) = -value (.finite t m e hm) := signed_neg t _
      rw [← hvalue]
      exact hneg.denotes_self
    | infinity t => exact hv.elim
    | notANumber => exact hv.elim
  | finite s m e hm =>
    cases v with
    | zero t =>
      rw [value_zero, sub_zero]
      exact hu.denotes_self
    | finite t m' e' hm' => exact normalize_decreaseExponent Int.cast_sub sub_mul s t m m' e e'
    | infinity t => exact hv.elim
    | notANumber => exact hv.elim
  | infinity s => exact hu.elim
  | notANumber => exact hu.elim

/-- The negative stands for the negative, without rounding. -/
theorem neg_denotes (hu : Canonical u) : Denotes u.neg (-value u) := by
  cases u with
  | zero s => exact ⟨trivial, neg_zero.symm⟩
  | finite s m e hm => exact ⟨hu, signed_neg s _⟩
  | infinity s => exact hu.elim
  | notANumber => exact hu.elim

/-- A product is found on a scale that is fine enough. -/
theorem mul_finite_denotes (s t : Sign) {m m' : ℕ} (hm : 0 < m) (hm' : 0 < m') {e e' : ℤ}
    (hscale : e + e' ≤ grain ((m * m' : ℕ) * 2 ^ (e + e'))) :
    Denotes (UnpackedFloat.mul .binary64 (.finite s m e hm) (.finite t m' e' hm'))
      (unlimited (signed s (m * 2 ^ e) * signed t (m' * 2 ^ e'))) := by
  have hpos : 0 < m * m' := Nat.mul_pos hm hm'
  have hexact : ((m * m' : ℕ) : ℚ) * 2 ^ (e + e') = m * 2 ^ e * (m' * 2 ^ e') := by
    rw [zpow_add₀ two_ne_zero]
    push_cast
    ring
  -- The product of the mantissas is exact, and is rounded once.
  have hmantissa : ExtendedMantissa.ofMantissaAndAccuracy (m * m') .exact
      = extended ((m * m' : ℕ) * 2 ^ (e + e') / 2 ^ (e + e')) := by
    rw [ofMantissaAndAccuracy_exact, mul_div_cancel_right₀ _ (by positivity)]
  have hround := roundWithAccuracy_denotes (s * t) (by positivity) hscale hmantissa
  rwa [hexact, signed_mul] at hround

/-- A product stands for the rounded product. -/
theorem mul_denotes (hu : Canonical u) (hv : Canonical v) :
    Denotes (UnpackedFloat.mul .binary64 u v) (unlimited (value u * value v)) := by
  cases u with
  | zero s =>
    rw [value_zero, zero_mul]
    cases v with
    | zero t => exact denotes_zero _ rfl
    | finite t m e hm => exact denotes_zero _ rfl
    | infinity t => exact hv.elim
    | notANumber => exact hv.elim
  | finite s m e hm =>
    cases v with
    | zero t => exact denotes_zero _ (by rw [value_zero, mul_zero])
    | finite t m' e' hm' =>
      have hpos : 0 < m * m' := Nat.mul_pos hm hm'
      refine mul_finite_denotes s t hm hm' ?_
      rw [grain_natCast_mul hpos]
      obtain ⟨-, hlow, hnormal⟩ := hu
      obtain ⟨-, hlow', hnormal'⟩ := hv
      -- A factor with all its bits gives the product as many.
      have hlog (h : 2 ^ 52 ≤ m * m') : 52 ≤ (m * m').log2 := (Nat.le_log2 hpos.ne').2 h
      -- The product has 52 bits at least, or both factors are on the finest scale.
      rcases hnormal with h | h
      · have := hlog (h.trans (Nat.le_mul_of_pos_right m hm'))
        omega
      · rcases hnormal' with h' | h'
        · have := hlog (h'.trans (Nat.le_mul_of_pos_left m' hm))
          omega
        · omega
    | infinity t => exact hv.elim
    | notANumber => exact hv.elim
  | infinity s => exact hu.elim
  | notANumber => exact hu.elim

/-- A quotient is found on a scale that is fine enough, and with its remainder. -/
theorem divCore_spec {m m' : ℕ} (hm : 0 < m) (hm' : 0 < m') (e e' : ℤ) :
    let quotient := divCore .binary64 m e m' e'
    quotient.2.1 ≤ grain (m * 2 ^ e / (m' * 2 ^ e')) ∧
      ExtendedMantissa.ofMantissaAndAccuracy quotient.1 quotient.2.2
        = extended (m * 2 ^ e / (m' * 2 ^ e') / 2 ^ quotient.2.1) := by
  have hmq : (0 : ℚ) < m := by exact_mod_cast hm
  have hmq' : (0 : ℚ) < m' := by exact_mod_cast hm'
  have hpos : 0 < (m : ℚ) * 2 ^ e / (m' * 2 ^ e') := by positivity
  -- The lengths of the mantissas tell a power of two that the quotient reaches.
  have hlow : (2 : ℚ) ^ (m.log2 + e - (m'.log2 + 1 + e') : ℤ) ≤ m * 2 ^ e / (m' * 2 ^ e') := by
    have hpow : (2 : ℚ) ^ (m.log2 : ℤ) ≤ m := by exact_mod_cast Nat.log2_self_le hm.ne'
    have hpow' : (m' : ℚ) ≤ 2 ^ (m'.log2 + 1 : ℤ) := by exact_mod_cast Nat.lt_log2_self.le
    rw [zpow_sub₀ two_ne_zero, zpow_add₀ two_ne_zero, zpow_add₀ (two_ne_zero : (2 : ℚ) ≠ 0) _ e']
    gcongr
  have hlog := (Int.zpow_le_iff_le_log one_lt_two hpos).1 (by exact_mod_cast hlow)
  unfold divCore
  dsimp only
  rw [targetExponent_eq, totalExponent, totalExponent]
  -- The dividend is shifted until its quotient has enough bits.
  generalize htarget :
    min (e - e') (max (m.log2 + 1 + e - (m'.log2 + 1 + e') - 53) (-1074)) = target
  have hle : target ≤ e - e' := by omega
  obtain ⟨k, hk⟩ : ∃ k : ℕ, e - e' = target + k := ⟨(e - e' - target).toNat, by omega⟩
  rw [hk, add_sub_cancel_left, Int.toNat_natCast, ofMantissaAndAccuracy_div _ hm', Nat.shiftLeft_eq]
  constructor
  · unfold grain
    omega
  · congr 1
    have he : e = e' + (target + k) := by omega
    rw [he, zpow_add₀ two_ne_zero, zpow_add₀ two_ne_zero, zpow_natCast]
    push_cast
    field_simp

/-- A quotient stands for the rounded quotient, unless it is by zero. -/
theorem div_denotes (hu : Canonical u) (hv : Canonical v) (hne : value v ≠ 0) :
    Denotes (UnpackedFloat.div .binary64 u v) (unlimited (value u / value v)) := by
  cases v with
  | zero t => exact absurd rfl hne
  | finite t m' e' hm' =>
    -- Only zero divided by a number is not computed with mantissas.
    cases u with
    | zero s => exact denotes_zero _ (by rw [value_zero, zero_div])
    | finite s m e hm =>
      obtain ⟨hscale, hexact⟩ := divCore_spec hm hm' e e'
      have hround := roundWithAccuracy_denotes (s / t) (by positivity) hscale hexact
      rwa [signed_div] at hround
    | infinity s => exact hu.elim
    | notANumber => exact hu.elim
  | infinity t => exact hv.elim
  | notANumber => exact hv.elim

end

end Exact
end GlobeView

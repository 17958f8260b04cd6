/-
# What a shortest decimal reads back as

The interval that `shortest` searches is found by counting in quarters of the last
bit, without rounding anything.  Here it is connected with rounding: a decimal for
which `readsBack` holds is `Around` the double, halfway to its neighbours at most,
and rounds to it (`Around.magnitude_eq`).  Above a power of two this is one scale,
below it the finer one, on which the mantissa is the first with 54 bits.

Whichever grid has a hit, or if none has one, what is taken for a double therefore
rounds to it (`magnitude_value_shortest`), so different doubles are never written
with the same decimal.
-/

import GlobeView.Number.Shortest
import GlobeView.Proofs.Number.Rounding

namespace GlobeView

namespace Exact

/-! ### Rounding from close by -/

/-- **The natural within half a unit** is the closest one, at the ends if it is even. -/
theorem halfEven_eq_of_near {x : ℚ} {n : ℕ} (hn : 0 < n) (hlow : (n : ℚ) - 1 / 2 ≤ x)
    (hhigh : x ≤ n + 1 / 2)
    (h : n % 2 = 0 ∨ ((n : ℚ) - 1 / 2 < x ∧ x < n + 1 / 2)) : halfEven x = n := by
  -- The floor is `n` or the natural before it; at a half, `n` is the even one of the two.
  rcases le_or_gt (n : ℚ) x with hge | hlt
  · have hfloor : ⌊x⌋ = n := Int.floor_eq_iff.2 ⟨by exact_mod_cast hge, by push_cast; linarith⟩
    have hnat : ⌊x⌋₊ = n := by rw [← Int.floor_toNat, hfloor, Int.toNat_natCast]
    have hfract : Int.fract x = x - n := by rw [Int.fract, hfloor, Int.cast_natCast]
    unfold halfEven
    rw [hnat, hfract]
    split_ifs with h₁ h₂
    · rfl
    · rcases h with heven | ⟨-, hstrict⟩
      · omega
      · linarith
    · exact absurd (lt_of_le_of_ne (by linarith) h₂) h₁
  · -- Below `n` the floor is one less, and the fraction at least one half.
    have hfloor : ⌊x⌋ = (n - 1 : ℕ) := by
      refine Int.floor_eq_iff.2 ⟨?_, ?_⟩
      · push_cast [Nat.cast_pred hn]
        linarith
      · push_cast [Nat.cast_pred hn]
        linarith
    have hnat : ⌊x⌋₊ = n - 1 := by rw [← Int.floor_toNat, hfloor, Int.toNat_natCast]
    have hfract : Int.fract x = x - n + 1 := by
      rw [Int.fract, hfloor, Int.cast_natCast, Nat.cast_pred hn]
      ring
    unfold halfEven
    rw [hnat, hfract]
    split_ifs with h₁ h₂
    · linarith
    · rcases h with heven | ⟨hstrict, -⟩
      · omega
      · linarith
    · omega

/-- The scale of a number is where it has 53 bits, or the finest one. -/
theorem grain_eq {x : ℚ} {k : ℤ} (hx : 0 < x) (hhigh : x < 2 ^ (k + 53)) (hk : -1074 ≤ k)
    (hlow : 2 ^ (k + 52) ≤ x ∨ k = -1074) : grain x = k := by
  have hlt := (Int.lt_zpow_iff_log_lt one_lt_two hx).1 hhigh
  unfold grain
  rcases hlow with hlow | rfl
  · have hge := (Int.zpow_le_iff_le_log one_lt_two hx).1 hlow
    omega
  · push_cast at hlt
    omega

/-- What is within half a unit of a natural multiple of its scale is rounded to it. -/
theorem magnitude_eq_of_near {t : ℚ} {n : ℕ} {k : ℤ} (hn : 0 < n) (hgrain : grain (t * 2 ^ k) = k)
    (hlow : (n : ℚ) - 1 / 2 ≤ t) (hhigh : t ≤ n + 1 / 2)
    (h : n % 2 = 0 ∨ ((n : ℚ) - 1 / 2 < t ∧ t < n + 1 / 2)) :
    magnitude (t * 2 ^ k) = n * 2 ^ k := by
  rw [magnitude, hgrain, mul_div_cancel_right₀ t (by positivity),
    halfEven_eq_of_near hn hlow hhigh h]

end Exact

namespace Decimal

/-! ### Values -/

/-- The number that a decimal is. -/
def value (d : Decimal) : ℚ :=
  d.digits * 10 ^ d.exponent

/-- A power times the part of it that is below the line leaves the part above. -/
theorem zpow_mul_pow_toNat_neg {b : ℚ} (hb : b ≠ 0) (z : ℤ) :
    b ^ z * b ^ (-z).toNat = b ^ z.toNat := by
  rw [← zpow_natCast, ← zpow_natCast, ← zpow_add₀ hb]
  congr 1
  omega

/-- Decimals and binary numbers are compared as numbers. -/
theorem compareBinary_compares (d : Decimal) (b : ℕ) (q : ℤ) :
    (d.compareBinary b q).Compares d.value (b * 2 ^ q) := by
  have hleft : ((d.digits * Nat.pow 10 d.exponent.toNat * Nat.pow 2 (-q).toNat : ℕ) : ℚ)
      = d.value * (10 ^ (-d.exponent).toNat * 2 ^ (-q).toNat) := by
    have h := zpow_mul_pow_toNat_neg (b := 10) (by norm_num) d.exponent
    push_cast [Nat.pow_eq]
    rw [value, ← h]
    ring
  have hright : ((b * Nat.pow 2 q.toNat * Nat.pow 10 (-d.exponent).toNat : ℕ) : ℚ)
      = b * 2 ^ q * (10 ^ (-d.exponent).toNat * 2 ^ (-q).toNat) := by
    have h := zpow_mul_pow_toNat_neg (b := 2) (by norm_num) q
    push_cast [Nat.pow_eq]
    rw [← h]
    ring
  -- Both sides are scaled by what makes them whole, which keeps their order.
  have hscale : (0 : ℚ) < 10 ^ (-d.exponent).toNat * 2 ^ (-q).toNat := by positivity
  refine (strictMono_mul_right_of_pos hscale).compares.1 ?_
  rw [← hleft, ← hright]
  exact Nat.strictMono_cast.compares.2 ((compare_iff _ _).1 rfl)

/-- In units of `2^e` the number is between halfway to the double below `m · 2^e` and halfway
to the double above, and not one of these two unless `m` is even. -/
structure Around (m : ℕ) (e : ℤ) (t : ℚ) : Prop where
  low : lowerEnd m e ≤ 4 * t
  high : 4 * t ≤ upperEnd m
  inside : m % 2 = 0 ∨ (lowerEnd m e < 4 * t ∧ 4 * t < upperEnd m)

/-- The integer test decides whether a decimal is read back as the double. -/
theorem readsBack_iff {m : ℕ} {e : ℤ} {d : Decimal} :
    readsBack m e d = true ↔ Around m e (d.value / 2 ^ e) := by
  -- the ends are counted in quarters
  have hquarters (b : ℕ) : (d.compareBinary b (e - 2)).Compares (4 * (d.value / 2 ^ e)) b := by
    have hscale : (0 : ℚ) < 2 ^ (e - 2) := by positivity
    have hvalue : 4 * (d.value / 2 ^ e) * 2 ^ (e - 2) = d.value := by
      rw [zpow_sub₀ two_ne_zero]
      field_simp
      ring
    refine (strictMono_mul_right_of_pos hscale).compares.1 ?_
    rw [hvalue]
    exact d.compareBinary_compares b (e - 2)
  have hlow := hquarters (lowerEnd m e)
  have hhigh := hquarters (upperEnd m)
  unfold readsBack
  dsimp only
  split_ifs with heven
  · rw [Bool.and_eq_true, bne_iff_ne, bne_iff_ne, hlow.ne_lt, hhigh.ne_gt]
    exact ⟨fun h => ⟨h.1, h.2, .inl heven⟩, fun h => ⟨h.low, h.high⟩⟩
  · rw [Bool.and_eq_true, beq_iff_eq, beq_iff_eq, hlow.eq_gt, hhigh.eq_lt]
    exact ⟨fun h => ⟨h.1.le, h.2.le, .inr h⟩, fun h => h.inside.resolve_left heven⟩

/-! ### Reading back -/

section

variable {m : ℕ} {e : ℤ} {t : ℚ}

/-- What is around a double with 53 bits, or on the finest scale, is rounded on its scale. -/
theorem grain_eq_of_near (he : -1074 ≤ e) (hm : m < 2 ^ 53) (hpos : 0 < t) (hhigh : t < m + 1)
    (hlow : 2 ^ 52 ≤ t ∨ e = -1074) : Exact.grain (t * 2 ^ e) = e := by
  have hunit : (0 : ℚ) < 2 ^ e := by positivity
  have hbits : (m : ℚ) + 1 ≤ 2 ^ 53 := by exact_mod_cast hm
  refine Exact.grain_eq (by positivity) ?_ he (hlow.imp_left fun hlow => ?_)
  · rw [zpow_add₀ two_ne_zero, mul_comm ((2 : ℚ) ^ e), mul_lt_mul_iff_left₀ hunit]
    exact hhigh.trans_le hbits
  · rw [zpow_add₀ two_ne_zero, mul_comm ((2 : ℚ) ^ e), mul_le_mul_iff_left₀ hunit]
    exact hlow

/-- What is around a double whose neighbours are equally far away rounds to it. -/
theorem Around.magnitude_eq_of_not_edge (h : Around m e t) (hpos : 0 < m) (hm : m < 2 ^ 53)
    (he : -1074 ≤ e) (hfull : 2 ^ 52 ≤ m ∨ e = -1074) (hedge : ¬(m = 2 ^ 52 ∧ -1074 < e)) :
    Exact.magnitude (t * 2 ^ e) = m * 2 ^ e := by
  obtain ⟨hlow, hhigh, hinside⟩ := h
  -- Both ends are half a unit away, which is two quarters.
  have hlower : (lowerEnd m e : ℚ) = 4 * m - 2 := by
    rw [lowerEnd, if_neg (by rwa [Nat.pow_eq]), Nat.cast_sub (by omega)]
    push_cast
    rfl
  have hupper : (upperEnd m : ℚ) = 4 * m + 2 := by
    rw [upperEnd]
    push_cast
    rfl
  rw [hlower] at hlow hinside
  rw [hupper] at hhigh hinside
  have hone : (1 : ℚ) ≤ m := by exact_mod_cast hpos
  -- Neither end of the interval reaches a scale with a finer last bit.
  have hgrain : Exact.grain (t * 2 ^ e) = e := by
    refine grain_eq_of_near he hm (by linarith) (by linarith)
      (or_iff_not_imp_right.2 fun hne => ?_)
    have hm52 : 2 ^ 52 + 1 ≤ m := by
      have hne52 : m ≠ 2 ^ 52 := fun heq => hedge ⟨heq, by omega⟩
      omega
    have hmq : (2 : ℚ) ^ 52 + 1 ≤ m := by exact_mod_cast hm52
    linarith
  refine Exact.magnitude_eq_of_near hpos hgrain (by linarith) (by linarith)
    (hinside.imp_right fun h => ?_)
  constructor <;> linarith

/-- What is around a power of two rounds to it, also below it, where the doubles are twice as
close. -/
theorem Around.magnitude_eq_of_edge (h : Around (2 ^ 52) e t) (he : -1074 < e) :
    Exact.magnitude (t * 2 ^ e) = (2 ^ 52 : ℕ) * 2 ^ e := by
  obtain ⟨hlow, hhigh, -⟩ := h
  -- The lower end is a quarter of a unit away, since the double below is only half a unit away.
  have hlower : (lowerEnd (2 ^ 52) e : ℚ) = 4 * 2 ^ 52 - 1 := by
    rw [lowerEnd, if_pos ⟨rfl, he⟩]
    norm_num
  have hupper : (upperEnd (2 ^ 52) : ℚ) = 4 * 2 ^ 52 + 2 := by
    rw [upperEnd]
    norm_num
  rw [hlower] at hlow
  rw [hupper] at hhigh
  -- Below the power of two the last bit is finer, so there are two scales to round on.
  rcases le_or_gt (2 ^ 52) t with hge | hlt
  · have hgrain : Exact.grain (t * 2 ^ e) = e :=
      grain_eq_of_near he.le (m := 2 ^ 52) (by norm_num) (by linarith) (by push_cast; linarith)
        (.inl hge)
    refine Exact.magnitude_eq_of_near (by norm_num) hgrain ?_ ?_ (.inl rfl) <;> push_cast <;>
      linarith
  · have hdouble : t * 2 ^ e = 2 * t * 2 ^ (e - 1) := by
      rw [zpow_sub_one₀ two_ne_zero]
      ring
    have hgrain : Exact.grain (2 * t * 2 ^ (e - 1)) = e - 1 :=
      grain_eq_of_near (by omega) (m := 2 ^ 53 - 1) (by norm_num) (by linarith)
        (by push_cast; linarith) (.inl (by linarith))
    have hround : Exact.magnitude (2 * t * 2 ^ (e - 1)) = (2 ^ 53 : ℕ) * 2 ^ (e - 1) := by
      refine Exact.magnitude_eq_of_near (by norm_num) hgrain ?_ ?_ (.inl rfl) <;> push_cast <;>
        linarith
    rw [hdouble, hround, zpow_sub_one₀ two_ne_zero]
    push_cast
    ring

/-- **What is around a double rounds to it.** -/
theorem Around.magnitude_eq (h : Around m e t) (hpos : 0 < m) (hm : m < 2 ^ 53)
    (he : -1074 ≤ e) (hfull : 2 ^ 52 ≤ m ∨ e = -1074) :
    Exact.magnitude (t * 2 ^ e) = m * 2 ^ e := by
  by_cases hedge : m = 2 ^ 52 ∧ -1074 < e
  · obtain ⟨rfl, he'⟩ := hedge
    exact h.magnitude_eq_of_edge he'
  · exact h.magnitude_eq_of_not_edge hpos hm he hfull hedge

end

/-! ### What is found -/

/-- What is found on a grid reads back. -/
theorem readsBack_of_onGrid {tie : Tie} {m : ℕ} {e p : ℤ} {d : Decimal}
    (h : onGrid tie m e p = some d) : readsBack m e d = true := by
  unfold onGrid at h
  dsimp only at h
  -- The closer candidate is one of the two neighbours on the grid.
  have hcloser : closer tie m e (floorOn m e p) p = ⟨floorOn m e p, p⟩ ∨
      closer tie m e (floorOn m e p) p = ⟨floorOn m e p + 1, p⟩ := by
    unfold closer
    split
    · exact .inr rfl
    · exact .inl rfl
    · cases tie with
      | up => exact .inr rfl
      | even =>
        dsimp only
        split_ifs
        · exact .inl rfl
        · exact .inr rfl
  split at h
  -- A candidate is returned only after it has been read back.
  case h_1 hlow hhigh =>
    cases h
    rcases hcloser with heq | heq
    · rwa [heq]
    · rwa [heq]
  case h_2 hlow hhigh =>
    cases h
    exact hlow
  case h_3 hlow hhigh =>
    cases h
    exact hhigh
  case h_4 => cases h

/-- Every double is a decimal, with as many digits as that takes. -/
theorem value_exact (m : ℕ) (e : ℤ) : (exact m e).value = m * 2 ^ e := by
  unfold exact value
  split_ifs with h
  · obtain ⟨k, rfl⟩ := Int.eq_ofNat_of_zero_le h
    push_cast [Nat.pow_eq]
    simp
  · -- A half is five tenths, so every bit behind the point takes one decimal place.
    obtain ⟨k, rfl⟩ : ∃ k : ℕ, e = -k := ⟨(-e).toNat, by omega⟩
    have hten : (10 : ℚ) = 2 * 5 := by norm_num
    rw [neg_neg, Int.toNat_natCast, Nat.pow_eq, zpow_neg, zpow_neg, zpow_natCast, zpow_natCast,
      hten, mul_pow]
    push_cast
    field_simp

/-- Zeros are not worth anything. -/
theorem value_strip (n : ℕ) (k : ℤ) : (strip n k).value = n * 10 ^ k := by
  induction n, k using strip.induct with
  | case1 n k h ih =>
    obtain ⟨q, rfl⟩ : 10 ∣ n := Nat.dvd_of_mod_eq_zero h.2
    rw [strip, if_pos h, ih, Nat.mul_div_cancel_left q (by norm_num), zpow_add_one₀ (by norm_num)]
    push_cast
    ring
  | case2 n k h => rw [strip, if_neg h, value]

/-- **What is taken for a double rounds to it.** -/
theorem magnitude_value_shortest (tie : Tie) {m : ℕ} {e : ℤ} (hpos : 0 < m) (hm : m < 2 ^ 53)
    (he : -1074 ≤ e) (hfull : 2 ^ 52 ≤ m ∨ e = -1074) :
    Exact.magnitude (shortest tie m e).value = m * 2 ^ e := by
  unfold shortest
  dsimp only
  rw [value_strip, ← value]
  -- One of the first 17 grids has a decimal that is read back, or all digits are written.
  cases h : (List.range 17).findSome? fun i : ℕ => onGrid tie m e (magnitude m e - (i + 1)) with
  | none =>
    rw [Option.getD_none, value_exact]
    exact Exact.magnitude_natCast_mul hm he
  | some d =>
    obtain ⟨i, -, hgrid⟩ := List.exists_of_findSome?_eq_some h
    have haround := readsBack_iff.1 (readsBack_of_onGrid hgrid)
    have hround := haround.magnitude_eq hpos hm he hfull
    rwa [div_mul_cancel₀ _ (by positivity)] at hround

end Decimal
end GlobeView

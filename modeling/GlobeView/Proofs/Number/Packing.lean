/-
# Packing doubles

A double is stored as a sign, eleven bits of exponent and 52 bits of mantissa.
What is unpacked from them is NaN or `Settled`: an infinity, or a canonical
double below the limit (`settled_ofFields`).  Packing a canonical double and
unpacking it gives it back (`unpack_pack_finite`), unless its exponent is too
large, which makes it an infinity (`unpack_pack_overflow`).

Settled doubles are compared as the numbers they stand for (`compare_settled`).

Only one NaN is valid, so what is unpacked also tells the bits (`fieldsOf_unpack`),
and distinct doubles are never unpacked alike (`bits_eq_of_unpack_eq`).
-/

import GlobeView.Proofs.Number.Unpacked
import GlobeView.Number.Exact

namespace GlobeView
namespace Exact

open Float.Model UnpackedFloat

/-! ### Bits -/

/-- A sign is read back from its bit. -/
theorem ofBitVec_toBitVec (s : Sign) : Sign.ofBitVec s.toBitVec = s := by
  cases s <;> rfl

/-- The first of the 64 bits is the sign. -/
theorem unpackSign_packComponents (s : Sign) (e : BitVec 11) (m : BitVec 52) :
    unpackSign (packComponents .binary64 s e m) = s.toBitVec := by
  unfold unpackSign packComponents BitVec.extractLsb
  rw [BitVec.extractLsb'_append_eq_of_le (by decide),
    BitVec.extractLsb'_append_eq_of_le (by decide)]
  cases s <;> rfl

/-- Finite doubles of one sign are the same when mantissa and exponent are. -/
theorem finite_eq {s : Sign} {m m' : ℕ} {e e' : ℤ} {hm : 0 < m} {hm' : 0 < m'} (h : m = m')
    (he : e = e') : UnpackedFloat.finite s m e hm = .finite s m' e' hm' := by
  subst h he
  rfl

/-- The implicit bit counts `2 ^ 52`. -/
theorem toNat_implicit (m : BitVec 52) : (1#1 ++ m).toNat = 2 ^ 52 + m.toNat := by
  rw [BitVec.toNat_append, ← Nat.shiftLeft_add_eq_or_of_lt m.isLt]
  rfl

/-- The double with the given sign, exponent bits and mantissa bits. -/
def ofFields (s : Sign) (e : BitVec 11) (m : BitVec 52) : UnpackedFloat :=
  if e = -1#_ then
    if m = 0#_ then .infinity s else .notANumber
  else if e = 0#_ then
    if h : m = 0#_ then .zero s
    else .finite s m.toNat (-1074) (by simpa [BitVec.toNat_pos, BitVec.pos_iff_ne_zero])
  else .finite s (1#1 ++ m).toNat (e.toNat - 1075) (by rw [toNat_implicit]; positivity)

/-- Unpacking takes the three fields apart and looks at nothing else. -/
theorem unpack_eq_ofFields (b : BitVec 64) :
    UnpackedFloat.unpack .binary64 b =
      ofFields (Sign.ofBitVec (@unpackSign .binary64 b)) (@unpackExponent .binary64 b)
        (@unpackMantissa .binary64 b) := by
  unfold UnpackedFloat.unpack ofFields
  dsimp only
  -- First the greatest exponent, then the smallest, and then all others.
  by_cases hones : @unpackExponent .binary64 b = -1#_
  · rw [if_pos hones, if_pos hones]
  · rw [if_neg hones, if_neg hones]
    by_cases hexponent : @unpackExponent .binary64 b = 0#_
    · rw [if_pos hexponent, if_pos hexponent]
      by_cases hzero : @unpackMantissa .binary64 b = 0#_
      · rw [dif_pos hzero, dif_pos hzero]
      · rw [dif_neg hzero, dif_neg hzero]
        refine finite_eq rfl ?_
        rw [hexponent]
        rfl
    · rw [if_neg hexponent, if_neg hexponent]
      rfl

/-- Fields that were put together are taken apart again. -/
theorem unpack_packComponents (s : Sign) (e : BitVec 11) (m : BitVec 52) :
    UnpackedFloat.unpack .binary64 (packComponents .binary64 s e m) = ofFields s e m := by
  rw [unpack_eq_ofFields, unpackSign_packComponents, ofBitVec_toBitVec,
    unpackExponent_packComponents, unpackMantissa_packComponents]

/-! ### Packing -/

/-- An infinity survives packing. -/
theorem unpack_pack_infinity (s : Sign) :
    UnpackedFloat.unpack .binary64 (UnpackedFloat.pack .binary64 (.infinity s)) = .infinity s := by
  have hpack : UnpackedFloat.pack .binary64 (.infinity s) = packComponents .binary64 s (-1#_) 0 :=
    rfl
  rw [hpack, unpack_packComponents]
  rfl

/-- A zero survives packing, and so does its sign. -/
theorem unpack_pack_zero (s : Sign) :
    UnpackedFloat.unpack .binary64 (UnpackedFloat.pack .binary64 (.zero s)) = .zero s := by
  have hpack : UnpackedFloat.pack .binary64 (.zero s) = packComponents .binary64 s 0 0 := rfl
  rw [hpack, unpack_packComponents]
  rfl

/-- NaN survives packing. -/
theorem unpack_pack_notANumber :
    UnpackedFloat.unpack .binary64 (UnpackedFloat.pack .binary64 .notANumber) = .notANumber := by
  have hpack : UnpackedFloat.pack .binary64 .notANumber
      = packComponents .binary64 .positive (-1#_) (1#_ <<< 51) := rfl
  rw [hpack, unpack_packComponents]
  rfl

/-- Packing a finite double tells overflow, normal and subnormal numbers apart. -/
theorem pack_finite (s : Sign) (m : ℕ) (e : ℤ) (hm : 0 < m) :
    UnpackedFloat.pack .binary64 (.finite s m e hm) =
      if 2 ^ 11 ≤ (e + 1023 + 52).toNat + 1 then packedInfinity .binary64 s
      else if m.log2 + 1 = 53 then
        packComponents .binary64 s (BitVec.ofNat 11 (e + 1023 + 52).toNat) (BitVec.ofNat 52 m)
      else packComponents .binary64 s 0#11 (BitVec.ofNat 52 m) := rfl

/-- A canonical double is unpacked as it was packed if its exponent fits, -/
theorem unpack_pack_finite {s : Sign} {m : ℕ} {e : ℤ} {hm : 0 < m}
    (h : Canonical (.finite s m e hm)) (he : e ≤ 971) :
    UnpackedFloat.unpack .binary64 (UnpackedFloat.pack .binary64 (.finite s m e hm))
      = .finite s m e hm := by
  obtain ⟨hlt, hlow, hnormal⟩ := h
  have hfits : ¬ 2 ^ 11 ≤ (e + 1023 + 52).toNat + 1 := by omega
  -- A normal mantissa has all its bits, the first of which is not stored.
  by_cases hfull : 2 ^ 52 ≤ m
  · have hlog : m.log2 + 1 = 53 := by
      have := (Nat.le_log2 hm.ne').2 hfull
      have := (Nat.log2_lt hm.ne').2 hlt
      omega
    have hexponent : (BitVec.ofNat 11 (e + 1023 + 52).toNat).toNat = (e + 1075).toNat := by
      rw [BitVec.toNat_ofNat, Nat.mod_eq_of_lt (by omega)]
      omega
    have hmantissa : (1#1 ++ BitVec.ofNat 52 m).toNat = m := by
      rw [toNat_implicit, BitVec.toNat_ofNat]
      omega
    -- The exponent is neither the greatest nor the smallest, which stand for other numbers.
    have hne (b : BitVec 11) (hb : (e + 1075).toNat ≠ b.toNat) :
        BitVec.ofNat 11 (e + 1023 + 52).toNat ≠ b := by
      intro heq
      rw [← heq, hexponent] at hb
      exact hb rfl
    have hones : (-1#11).toNat = 2047 := rfl
    have hzero : (0#11).toNat = 0 := rfl
    rw [pack_finite, if_neg hfits, if_pos hlog, unpack_packComponents, ofFields,
      if_neg (hne _ (by omega)), if_neg (hne _ (by omega))]
    exact finite_eq hmantissa (by omega)
  · -- A mantissa with fewer bits is on the finest scale.
    obtain rfl : e = -1074 := hnormal.resolve_left hfull
    have hlog : ¬ m.log2 + 1 = 53 := by
      have := (Nat.log2_lt hm.ne').2 (not_le.1 hfull)
      omega
    have hmantissa : (BitVec.ofNat 52 m).toNat = m := by
      rw [BitVec.toNat_ofNat, Nat.mod_eq_of_lt (not_le.1 hfull)]
    have hne : BitVec.ofNat 52 m ≠ 0#_ := by
      intro heq
      rw [heq] at hmantissa
      exact hm.ne hmantissa
    rw [pack_finite, if_neg hfits, if_neg hlog, unpack_packComponents, ofFields,
      if_neg (by decide), if_pos rfl, dif_neg hne]
    exact finite_eq hmantissa rfl

/-- and otherwise becomes an infinity. -/
theorem unpack_pack_overflow (s : Sign) {m : ℕ} {e : ℤ} (hm : 0 < m) (he : 972 ≤ e) :
    UnpackedFloat.unpack .binary64 (UnpackedFloat.pack .binary64 (.finite s m e hm))
      = .infinity s := by
  have hover : 2 ^ 11 ≤ (e + 1023 + 52).toNat + 1 := by omega
  rw [pack_finite, if_pos hover]
  exact unpack_pack_infinity s

/-! ### Unpacking -/

/-- The limit, split into two powers of two. -/
theorem limit_eq (k l : ℤ) (h : k + l = 1024) : limit = 2 ^ k * 2 ^ l := by
  rw [limit, ← zpow_add₀ two_ne_zero, h]
  rfl

/-- A mantissa of 53 bits with an exponent of at most 971 stays below the limit. -/
theorem abs_value_lt {s : Sign} {m : ℕ} {e : ℤ} {hm : 0 < m} (hlt : m < 2 ^ 53) (he : e ≤ 971) :
    |value (.finite s m e hm)| < limit := by
  have hmq : (m : ℚ) < 2 ^ (53 : ℤ) := by exact_mod_cast hlt
  have hpow : (2 : ℚ) ^ e ≤ 2 ^ (971 : ℤ) := zpow_le_zpow_right₀ one_le_two he
  rw [value_finite, abs_signed, abs_of_pos (by positivity), limit_eq 53 971 (by norm_num)]
  exact mul_lt_mul hmq hpow (by positivity) (by positivity)

/-- A mantissa of all 53 bits with a greater exponent reaches the limit. -/
theorem limit_le_of_le {m : ℕ} {e : ℤ} (hm : 2 ^ 52 ≤ m) (he : 972 ≤ e) : limit ≤ m * 2 ^ e := by
  have hmq : (2 : ℚ) ^ (52 : ℤ) ≤ m := by exact_mod_cast hm
  have hpow : (2 : ℚ) ^ (972 : ℤ) ≤ 2 ^ e := zpow_le_zpow_right₀ one_le_two he
  rw [limit_eq 52 972 (by norm_num)]
  exact mul_le_mul hmq hpow (by positivity) (by positivity)

/-- An unpacked double that is a number, as it can be unpacked: an infinity, or
canonical and not too large. -/
inductive Settled : UnpackedFloat → Prop where
  | infinity (s : Sign) : Settled (.infinity s)
  | finite {u : UnpackedFloat} (h : Canonical u) (hlt : |value u| < limit) : Settled u

/-- Whatever the fields are, what they stand for is settled, or no number. -/
theorem settled_ofFields (s : Sign) (e : BitVec 11) (m : BitVec 52)
    (h : ofFields s e m ≠ .notANumber) : Settled (ofFields s e m) := by
  revert h
  unfold ofFields
  -- Infinities and NaN have the greatest exponent, and subnormal numbers have the smallest.
  by_cases hones : e = -1#_
  · rw [if_pos hones]
    by_cases hzero : m = 0#_
    · rw [if_pos hzero]
      exact fun _ => .infinity s
    · rw [if_neg hzero]
      exact fun h => absurd rfl h
  · rw [if_neg hones]
    have hm : m.toNat < 2 ^ 52 := m.isLt
    by_cases hexponent : e = 0#_
    · rw [if_pos hexponent]
      by_cases hzero : m = 0#_
      · rw [dif_pos hzero]
        exact fun _ => .finite trivial (by simpa using limit_pos)
      · rw [dif_neg hzero]
        exact fun _ => .finite ⟨hm.trans (by decide), le_rfl, .inr rfl⟩
          (abs_value_lt (hm.trans (by decide)) (by decide))
    · rw [if_neg hexponent]
      have he : e.toNat < 2 ^ 11 := e.isLt
      have hpos : e.toNat ≠ 0 := fun heq => hexponent (BitVec.eq_of_toNat_eq heq)
      -- All other exponents belong to normal numbers, below the limit.
      have htop : e.toNat ≠ 2047 := fun heq => hones (BitVec.eq_of_toNat_eq heq)
      have himplicit : (1#1 ++ m).toNat = 2 ^ 52 + m.toNat := toNat_implicit m
      refine fun _ => .finite ⟨?_, ?_, .inl ?_⟩ (abs_value_lt ?_ ?_)
      all_goals omega

/-! ### Fields -/

/-- The 64 bits are made up of their three fields. -/
theorem packComponents_unpack (b : BitVec 64) :
    packComponents .binary64 (Sign.ofBitVec (@unpackSign .binary64 b))
      (@unpackExponent .binary64 b) (@unpackMantissa .binary64 b) = b := by
  have hsign (v : BitVec 1) : (Sign.ofBitVec v).toBitVec = v := by
    revert v
    decide
  unfold packComponents
  rw [hsign]
  -- The three pieces are next to each other.
  change b.extractLsb' 63 1 ++ b.extractLsb' 52 11 ++ b.extractLsb' 0 52 = b
  rw [BitVec.extractLsb'_append_extractLsb'_eq_extractLsb' (by rfl),
    BitVec.extractLsb'_append_extractLsb'_eq_extractLsb' (by rfl)]
  exact BitVec.extractLsb'_eq_self

/-- The sign and the bits of exponent and mantissa that an unpacked double comes from. -/
def fieldsOf : UnpackedFloat → Sign × ℕ × ℕ
  | .notANumber => (.positive, 2047, 2 ^ 51)
  | .infinity s => (s, 2047, 0)
  | .zero s => (s, 0, 0)
  | .finite s m e _ => if m < 2 ^ 52 then (s, 0, m) else (s, (e + 1075).toNat, m - 2 ^ 52)

/-- The implicit bit of a normal mantissa is not stored. -/
theorem fieldsOf_finite (s : Sign) (m : ℕ) (e : ℤ) (hm : 0 < m) :
    fieldsOf (.finite s m e hm) =
      if m < 2 ^ 52 then (s, 0, m) else (s, (e + 1075).toNat, m - 2 ^ 52) := rfl

/-- What is unpacked tells the fields of valid bits, also those of NaN. -/
theorem fieldsOf_unpack {b : BitVec 64} (h : Format.binary64.Valid b) :
    fieldsOf (UnpackedFloat.unpack .binary64 b) = (Sign.ofBitVec (@unpackSign .binary64 b),
      (@unpackExponent .binary64 b).toNat, (@unpackMantissa .binary64 b).toNat) := by
  rw [unpack_eq_ofFields, ofFields]
  -- There is one NaN only, because the bits are valid.
  by_cases hones : @unpackExponent .binary64 b = -1#_
  · rw [if_pos hones]
    by_cases hzero : @unpackMantissa .binary64 b = 0#_
    · rw [if_pos hzero, hones, hzero]
      rfl
    · rw [if_neg hzero, h.eq_packedNaN hones hzero]
      rfl
  · rw [if_neg hones]
    by_cases hexponent : @unpackExponent .binary64 b = 0#_
    · rw [if_pos hexponent, hexponent]
      by_cases hzero : @unpackMantissa .binary64 b = 0#_
      · rw [dif_pos hzero, hzero]
        rfl
      · rw [dif_neg hzero, fieldsOf_finite, if_pos (@unpackMantissa .binary64 b).isLt]
        rfl
    · have himplicit := toNat_implicit (@unpackMantissa .binary64 b)
      rw [if_neg hexponent, fieldsOf_finite, if_neg (by omega), himplicit, Nat.add_sub_cancel_left]
      congr 2
      omega

/-- **Valid bits are determined by what is unpacked from them.** -/
theorem bits_eq_of_unpack_eq {b c : BitVec 64} (hb : Format.binary64.Valid b)
    (hc : Format.binary64.Valid c)
    (h : UnpackedFloat.unpack .binary64 b = UnpackedFloat.unpack .binary64 c) : b = c := by
  have hfields := fieldsOf_unpack hb
  rw [h, fieldsOf_unpack hc] at hfields
  simp only [Prod.mk.injEq] at hfields
  obtain ⟨hsign, hexponent, hmantissa⟩ := hfields
  rw [← packComponents_unpack b, ← packComponents_unpack c, hsign, BitVec.eq_of_toNat_eq hexponent,
    BitVec.eq_of_toNat_eq hmantissa]

/-! ### Order -/

/-- Of two canonical doubles the one with the smaller exponent is the smaller. -/
theorem lt_of_exponent_lt {m m' : ℕ} {e e' : ℤ} (hm : m < 2 ^ 53) (he : -1074 ≤ e)
    (hm' : 2 ^ 52 ≤ m' ∨ e' = -1074) (h : e < e') : (m : ℚ) * 2 ^ e < m' * 2 ^ e' := by
  have hfull : (2 : ℚ) ^ 52 ≤ m' := by exact_mod_cast hm'.resolve_right (by omega)
  have hmq : (m : ℚ) < 2 ^ 53 := by exact_mod_cast hm
  have hpow : (2 : ℚ) ^ (e + 1) ≤ 2 ^ e' := zpow_le_zpow_right₀ one_le_two h
  calc
    (m : ℚ) * 2 ^ e < 2 ^ 53 * 2 ^ e := by gcongr
    _ = 2 ^ 52 * 2 ^ (e + 1) := by
      rw [zpow_add_one₀ two_ne_zero]
      ring
    _ ≤ m' * 2 ^ e' := by gcongr

/-- Exponents decide first, then mantissas. -/
theorem compares_finite {s s' : Sign} {m m' : ℕ} {e e' : ℤ} {hm : 0 < m} {hm' : 0 < m'}
    (h : Canonical (.finite s m e hm)) (h' : Canonical (.finite s' m' e' hm')) :
    ((compare e e').then (compare m m')).Compares ((m : ℚ) * 2 ^ e) (m' * 2 ^ e') := by
  -- A greater exponent decides, because the mantissa that goes with it has all of its bits.
  rcases lt_trichotomy e e' with hlt | rfl | hgt
  · rw [compare_lt_iff_lt.2 hlt]
    exact lt_of_exponent_lt h.1 h.2.1 h'.2.2 hlt
  · rw [compare_eq_iff_eq.2 rfl]
    have hpow : (0 : ℚ) < 2 ^ e := by positivity
    rcases lt_trichotomy m m' with hlt | rfl | hgt
    · rw [compare_lt_iff_lt.2 hlt]
      exact mul_lt_mul_of_pos_right (by exact_mod_cast hlt) hpow
    · rw [compare_eq_iff_eq.2 rfl]
      rfl
    · rw [compare_gt_iff_gt.2 hgt]
      exact mul_lt_mul_of_pos_right (by exact_mod_cast hgt) hpow
  · rw [compare_gt_iff_gt.2 hgt]
    exact lt_of_exponent_lt h'.1 h'.2.1 h.2.2 hgt

/-- Negative doubles are ordered against the size of their numbers. -/
theorem compares_neg {o : Ordering} {a b : ℚ} (h : o.Compares a b) : o.swap.Compares (-a) (-b) := by
  cases o
  · exact neg_lt_neg h
  · exact congrArg Neg.neg h
  · exact neg_lt_neg h

/-- Finite doubles compare as what they stand for. -/
theorem compare_finite {s t : Sign} {m m' : ℕ} {e e' : ℤ} {hm : 0 < m} {hm' : 0 < m'}
    (h : Canonical (.finite s m e hm)) (h' : Canonical (.finite t m' e' hm')) :
    ∃ o : Ordering, (UnpackedFloat.finite s m e hm).compare (.finite t m' e' hm') = some o ∧
      o.Compares (value (.finite s m e hm)) (value (.finite t m' e' hm')) := by
  have hcompares := compares_finite h h'
  have hpos : 0 < (m : ℚ) * 2 ^ e := by positivity
  have hpos' : 0 < (m' : ℚ) * 2 ^ e' := by positivity
  -- Between negative doubles the order is the other way.
  cases s <;> cases t
  · exact ⟨_, rfl, compares_neg hcompares⟩
  · exact ⟨.lt, rfl, (neg_lt_zero.2 hpos).trans hpos'⟩
  · exact ⟨.gt, rfl, (neg_lt_zero.2 hpos').trans hpos⟩
  · exact ⟨_, rfl, hcompares⟩

/-- **Doubles are compared as what they stand for.** -/
theorem compare_settled {u v : UnpackedFloat} (hu : Settled u) (hv : Settled v) :
    ∃ o : Ordering, u.compare v = some o ∧ o.Compares (value u) (value v) := by
  have hlimit := limit_pos
  have hpos {m : ℕ} (hm : 0 < m) (e : ℤ) : 0 < (m : ℚ) * 2 ^ e := by positivity
  -- Finite doubles lie between the two infinities.
  cases hu with
  | infinity s =>
    cases hv with
    | infinity t =>
      cases s <;> cases t
      · exact ⟨.eq, rfl, rfl⟩
      · exact ⟨.lt, rfl, by simp only [Ordering.Compares, value_infinity, signed]; linarith⟩
      · exact ⟨.gt, rfl, by simp only [Ordering.Compares, value_infinity, signed]; linarith⟩
      · exact ⟨.eq, rfl, rfl⟩
    | finite h hlt =>
      obtain ⟨hlow, hhigh⟩ := abs_lt.1 hlt
      cases s <;> cases v
      all_goals first
        | exact ⟨.lt, rfl, hlow⟩
        | exact ⟨.gt, rfl, hhigh⟩
        | exact h.elim
  | finite h hlt =>
    cases hv with
    | infinity t =>
      obtain ⟨hlow, hhigh⟩ := abs_lt.1 hlt
      cases t <;> cases u
      all_goals first
        | exact ⟨.gt, rfl, hlow⟩
        | exact ⟨.lt, rfl, hhigh⟩
        | exact h.elim
    | finite h' hlt' =>
      cases u with
      | zero s =>
        cases v with
        | zero t => exact ⟨.eq, rfl, rfl⟩
        | finite t m e hm =>
          cases t
          · -- Zero is above the negative doubles and below the positive ones.
            exact ⟨.gt, rfl, neg_lt_zero.2 (hpos hm e)⟩
          · exact ⟨.lt, rfl, hpos hm e⟩
        | infinity t => exact h'.elim
        | notANumber => exact h'.elim
      | finite s m e hm =>
        cases v with
        | zero t =>
          cases s
          · exact ⟨.lt, rfl, neg_lt_zero.2 (hpos hm e)⟩
          · exact ⟨.gt, rfl, hpos hm e⟩
        | finite t m' e' hm' => exact compare_finite h h'
        | infinity t => exact h'.elim
        | notANumber => exact h'.elim
      | infinity s => exact h.elim
      | notANumber => exact h.elim

end Exact
end GlobeView

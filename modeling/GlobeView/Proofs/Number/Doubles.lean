/-
# Arithmetic of doubles

`toRat x` is the number a double stands for, `±limit` for the infinities, and
`Worth x q` says that `x` is no NaN and stands for `q`.  With these,

* the result of an operation on finite doubles is worth the rounded exact result
  (`add_worth`, `sub_worth`, `mul_worth`, `div_worth`);
* the order of doubles that are no NaN is that of the numbers (`le_iff`, `lt_iff`);
* integers of up to 53 bits are converted exactly (`ofInt_worth`);
* `minimum`, `maximum` and `floorWithin` are what they are for numbers.

What operations do with infinities and NaN is stated beside them, as far as it is
needed.
-/

import GlobeView.Proofs.Number.Packing

namespace GlobeView
namespace Exact

open Float.Model UnpackedFloat

/-- What a double stands for. -/
def toRat (x : Float) : ℚ :=
  value x.toModel.unpack

/-- The double is no NaN and stands for `q`. -/
structure Worth (x : Float) (q : ℚ) : Prop where
  notNaN : x.isNaN = false
  toRat_eq : toRat x = q

/-- The double that an unpacked one is stored as. -/
def packed (u : UnpackedFloat) : Float :=
  .ofModel (Float.Model.pack u)

/-- A double is unpacked from the bits that it was packed into. -/
theorem unpack_packed (u : UnpackedFloat) :
    (packed u).toModel.unpack
      = UnpackedFloat.unpack .binary64 (UnpackedFloat.pack .binary64 u) := rfl

/-! ### NaN and finite doubles -/

/-- The only unpacked form of NaN is that of no number. -/
theorem isNaN_iff {x : Float} : x.isNaN = true ↔ x.toModel.unpack = .notANumber := by
  change x.toModel.unpack.isNaN = true ↔ _
  cases x.toModel.unpack with
  | notANumber => exact iff_of_true rfl rfl
  | infinity s => exact iff_of_false Bool.false_ne_true (by intro h; cases h)
  | zero s => exact iff_of_false Bool.false_ne_true (by intro h; cases h)
  | finite s m e hm => exact iff_of_false Bool.false_ne_true (by intro h; cases h)

/-- A double that is no NaN is unpacked to a number. -/
theorem unpack_ne_notANumber {x : Float} (h : x.isNaN = false) :
    x.toModel.unpack ≠ .notANumber := by
  intro heq
  rw [isNaN_iff.2 heq] at h
  cases h

/-- A double that is no NaN is an infinity, or canonical and below the limit. -/
theorem settled {x : Float} (h : x.isNaN = false) : Settled x.toModel.unpack := by
  have hne := unpack_ne_notANumber h
  change UnpackedFloat.unpack .binary64 x.toModel.toBits.toBitVec ≠ .notANumber at hne
  change Settled (UnpackedFloat.unpack .binary64 x.toModel.toBits.toBitVec)
  rw [unpack_eq_ofFields] at hne ⊢
  exact settled_ofFields _ _ _ hne

/-- A double that is no NaN is worth what it stands for. -/
theorem worth_toRat {x : Float} (h : x.isNaN = false) : Worth x (toRat x) :=
  ⟨h, rfl⟩

/-- A finite double is no NaN. -/
theorem notNaN_of_isFinite {x : Float} (h : x.isFinite = true) : x.isNaN = false := by
  refine Bool.eq_false_iff.2 ?_
  intro hnan
  change x.toModel.unpack.isFinite = true at h
  rw [isNaN_iff.1 hnan] at h
  cases h

/-- Finite doubles are canonical when they are unpacked, and below the limit. -/
theorem canonical_of_isFinite {x : Float} (h : x.isFinite = true) :
    Canonical x.toModel.unpack ∧ |toRat x| < limit := by
  have hsettled := settled (notNaN_of_isFinite h)
  change x.toModel.unpack.isFinite = true at h
  unfold toRat
  generalize x.toModel.unpack = u at h hsettled ⊢
  cases hsettled with
  | infinity s => cases h
  | finite hu hlt => exact ⟨hu, hlt⟩

/-- **Finite is what is no NaN and below the limit.** -/
theorem isFinite_iff {x : Float} : x.isFinite = true ↔ x.isNaN = false ∧ |toRat x| < limit := by
  constructor
  · intro h
    exact ⟨notNaN_of_isFinite h, (canonical_of_isFinite h).2⟩
  · rintro ⟨hnum, hlt⟩
    have hsettled := settled hnum
    change x.toModel.unpack.isFinite = true
    unfold toRat at hlt
    generalize x.toModel.unpack = u at hsettled hlt ⊢
    -- An infinity is worth the limit, and anything else is finite.
    cases hsettled with
    | infinity s => simp [abs_of_pos limit_pos] at hlt
    | finite hu hlt' =>
      cases u with
      | zero s => rfl
      | finite s m e hm => rfl
      | infinity s => exact hu.elim
      | notANumber => exact hu.elim

/-- What lies between finite doubles is finite. -/
theorem isFinite_of_between {x low high : Float} (hx : x.isNaN = false)
    (hlow : low.isFinite = true) (hhigh : high.isFinite = true) (h : toRat low ≤ toRat x)
    (h' : toRat x ≤ toRat high) : x.isFinite = true := by
  refine isFinite_iff.2 ⟨hx, abs_lt.2 ⟨?_, ?_⟩⟩
  · exact (abs_lt.1 (isFinite_iff.1 hlow).2).1.trans_le h
  · exact h'.trans_lt (abs_lt.1 (isFinite_iff.1 hhigh).2).2

/-- What a finite double stands for has 53 bits at most. -/
theorem isDouble_toRat {x : Float} (h : x.isFinite = true) : IsDouble (toRat x) :=
  (canonical_of_isFinite h).1.isDouble

/-- **Doubles are determined by what is unpacked from them.** -/
theorem eq_of_unpack_eq {x y : Float} (h : x.toModel.unpack = y.toModel.unpack) : x = y := by
  obtain ⟨⟨bits, hbits⟩⟩ := x
  obtain ⟨⟨bits', hbits'⟩⟩ := y
  obtain rfl := UInt64.toBitVec_inj.1 (bits_eq_of_unpack_eq hbits hbits' h)
  rfl

/-! ### Storing -/

/-- From the limit on a number is held at the limit of its sign. -/
theorem limited_signed {s : Sign} {x : ℚ} (hx : limit ≤ x) :
    limited (signed s x) = signed s limit := by
  have hlimit := limit_pos
  have hpos : limited x = limit := by
    rw [limited, min_eq_left hx, max_eq_right (by linarith)]
  cases s
  · rw [signed, limited_neg, hpos, signed]
  · exact hpos

/-- **A canonical result is stored as it is, or as an infinity if it is too large.** -/
theorem Denotes.worth {u : UnpackedFloat} {q : ℚ} (h : Denotes u q) :
    Worth (packed u) (limited q) := by
  obtain ⟨hcanonical, rfl⟩ := h
  -- It is enough to know what the packed double is unpacked to.
  have hworth {u' : UnpackedFloat} (hu' : (packed u).toModel.unpack = u')
      (hnum : u'.isNaN = false) (hvalue : value u' = limited (value u)) :
      Worth (packed u) (limited (value u)) := by
    constructor
    · change (packed u).toModel.unpack.isNaN = false
      rw [hu', hnum]
    · rw [toRat, hu', hvalue]
  cases u with
  | zero s =>
    refine hworth (unpack_pack_zero s) rfl ?_
    rw [value_zero, limited_of_abs_le (by simpa using limit_pos.le)]
  | finite s m e hm =>
    -- Up to this exponent packing keeps the double, and beyond it there is overflow.
    by_cases he : e ≤ 971
    · refine hworth (unpack_pack_finite hcanonical he) rfl ?_
      rw [limited_of_abs_le (abs_value_lt hcanonical.1 he).le]
    · have hfull : 2 ^ 52 ≤ m := hcanonical.2.2.resolve_right (by omega)
      refine hworth (unpack_pack_overflow s hm (by omega)) rfl ?_
      exact (limited_signed (limit_le_of_le hfull (by omega))).symm
  | infinity s => exact hcanonical.elim
  | notANumber => exact hcanonical.elim

/-! ### Operations -/

section

variable {x y : Float}

/-- **A sum of finite doubles is the rounded sum,** and no NaN even when it overflows. -/
theorem add_worth (hx : x.isFinite = true) (hy : y.isFinite = true) :
    Worth (x + y) (rounded (toRat x + toRat y)) :=
  (add_denotes (canonical_of_isFinite hx).1 (canonical_of_isFinite hy).1).worth

/-- **A difference of finite doubles is the rounded difference.** -/
theorem sub_worth (hx : x.isFinite = true) (hy : y.isFinite = true) :
    Worth (x - y) (rounded (toRat x - toRat y)) :=
  (sub_denotes (canonical_of_isFinite hx).1 (canonical_of_isFinite hy).1).worth

/-- **A product of finite doubles is the rounded product.** -/
theorem mul_worth (hx : x.isFinite = true) (hy : y.isFinite = true) :
    Worth (x * y) (rounded (toRat x * toRat y)) :=
  (mul_denotes (canonical_of_isFinite hx).1 (canonical_of_isFinite hy).1).worth

/-- **A quotient of finite doubles is the rounded quotient,** unless it is by zero. -/
theorem div_worth (hx : x.isFinite = true) (hy : y.isFinite = true) (hne : toRat y ≠ 0) :
    Worth (x / y) (rounded (toRat x / toRat y)) :=
  (div_denotes (canonical_of_isFinite hx).1 (canonical_of_isFinite hy).1 hne).worth

/-- Only the sign of a number is changed, so nothing is rounded. -/
theorem neg_worth (hx : x.isNaN = false) : Worth (-x) (-toRat x) := by
  have hsettled := settled hx
  have hneg : -x = packed x.toModel.unpack.neg := rfl
  rw [hneg]
  unfold toRat
  generalize x.toModel.unpack = u at hsettled ⊢
  -- Changing the sign of a finite double needs no rounding, and packing leaves it finite.
  cases hsettled with
  | infinity s =>
    constructor
    · change (packed (.infinity (-s))).toModel.unpack.isNaN = false
      rw [unpack_packed, unpack_pack_infinity]
      rfl
    · change value (packed (.infinity (-s))).toModel.unpack = _
      rw [unpack_packed, unpack_pack_infinity]
      exact signed_neg s limit
  | finite hu hlt =>
    have hworth := (neg_denotes hu).worth
    rwa [limited_of_abs_le (by rw [abs_neg]; exact hlt.le)] at hworth

/-! ### NaN -/

/-- A result that is no number is stored as NaN. -/
theorem isNaN_of_eq_packed {u : UnpackedFloat} (hx : x = packed u) (hu : u = .notANumber) :
    x.isNaN = true := by
  subst hx hu
  exact isNaN_iff.2 unpack_pack_notANumber

/-- NaN has no sign to be changed. -/
theorem isNaN_neg (hx : x.isNaN = true) : (-x).isNaN = true := by
  refine isNaN_of_eq_packed (rfl : -x = packed x.toModel.unpack.neg) ?_
  rw [isNaN_iff.1 hx]
  rfl

/-- A product is computed on the unpacked doubles. -/
theorem mul_eq_packed (x y : Float) :
    x * y = packed (UnpackedFloat.mul .binary64 x.toModel.unpack y.toModel.unpack) := rfl

/-- NaN times anything is NaN. -/
theorem isNaN_mul_left (hx : x.isNaN = true) (y : Float) : (x * y).isNaN = true := by
  refine isNaN_of_eq_packed (mul_eq_packed x y) ?_
  rw [isNaN_iff.1 hx]
  rfl

/-- A difference is computed on the unpacked doubles. -/
theorem sub_eq_packed (x y : Float) :
    x - y = packed (UnpackedFloat.sub .binary64 x.toModel.unpack y.toModel.unpack) := rfl

/-- NaN less anything is NaN. -/
theorem isNaN_sub_left (hx : x.isNaN = true) (y : Float) : (x - y).isNaN = true := by
  refine isNaN_of_eq_packed (sub_eq_packed x y) ?_
  rw [isNaN_iff.1 hx]
  rfl

/-- A quotient is computed on the unpacked doubles. -/
theorem div_eq_packed (x y : Float) :
    x / y = packed (UnpackedFloat.div .binary64 x.toModel.unpack y.toModel.unpack) := rfl

/-- NaN divided by anything is NaN. -/
theorem isNaN_div_left (hx : x.isNaN = true) (y : Float) : (x / y).isNaN = true := by
  refine isNaN_of_eq_packed (div_eq_packed x y) ?_
  rw [isNaN_iff.1 hx]
  rfl

/-- A sum is computed on the unpacked doubles. -/
theorem add_eq_packed (x y : Float) :
    x + y = packed (UnpackedFloat.add .binary64 x.toModel.unpack y.toModel.unpack) := rfl

/-- Anything plus NaN is NaN. -/
theorem isNaN_add_right (x : Float) (hy : y.isNaN = true) : (x + y).isNaN = true := by
  refine isNaN_of_eq_packed (add_eq_packed x y) ?_
  rw [isNaN_iff.1 hy]
  cases x.toModel.unpack <;> rfl

/-! ### Order -/

/-- Doubles that are no NaN are compared as numbers. -/
theorem compare_eq (hx : x.isNaN = false) (hy : y.isNaN = false) :
    ∃ o : Ordering, x.toModel.unpack.compare y.toModel.unpack = some o ∧
      o.Compares (toRat x) (toRat y) :=
  compare_settled (settled hx) (settled hy)

/-- NaN compares with nothing, whichever side it is on. -/
theorem compare_eq_none (h : x.isNaN = true ∨ y.isNaN = true) :
    x.toModel.unpack.compare y.toModel.unpack = none := by
  rcases h with h | h
  · rw [isNaN_iff.1 h]
    rfl
  · rw [isNaN_iff.1 h]
    cases x.toModel.unpack <;> rfl

/-- **The order of doubles is that of the numbers.** -/
theorem le_iff : x ≤ y ↔ x.isNaN = false ∧ y.isNaN = false ∧ toRat x ≤ toRat y := by
  have hle : x ≤ y ↔ (x.toModel.unpack.compare y.toModel.unpack).any (·.isLE) = true :=
    decide_eq_true_iff
  rw [hle]
  -- NaN compares with nothing, so the comparison is of numbers.
  cases hx : x.isNaN with
  | true => simp [compare_eq_none (.inl hx)]
  | false =>
    cases hy : y.isNaN with
    | true => simp [compare_eq_none (.inr hy)]
    | false =>
      obtain ⟨o, ho, hcompares⟩ := compare_eq hx hy
      rw [ho, ← hcompares.ne_gt]
      cases o <;> simp

/-- Doubles are in strict order when both are numbers and what they stand for is. -/
theorem lt_iff : x < y ↔ x.isNaN = false ∧ y.isNaN = false ∧ toRat x < toRat y := by
  have hlt : x < y ↔ (x.toModel.unpack.compare y.toModel.unpack == some .lt) = true :=
    decide_eq_true_iff
  rw [hlt]
  cases hx : x.isNaN with
  | true => simp [compare_eq_none (.inl hx)]
  | false =>
    cases hy : y.isNaN with
    | true => simp [compare_eq_none (.inr hy)]
    | false =>
      obtain ⟨o, ho, hcompares⟩ := compare_eq hx hy
      rw [ho, ← hcompares.eq_lt]
      cases o <;> simp

instance transLe : Trans (· ≤ · : Float → Float → Prop) (· ≤ ·) (· ≤ ·) where
  trans hxy hyz := by
    obtain ⟨hx, -, hle⟩ := le_iff.1 hxy
    obtain ⟨-, hz, hle'⟩ := le_iff.1 hyz
    exact le_iff.2 ⟨hx, hz, hle.trans hle'⟩

/-- **Doubles that are no NaN are equal when the numbers are.** -/
theorem beq_iff : (x == y) = true ↔ x.isNaN = false ∧ y.isNaN = false ∧ toRat x = toRat y := by
  have hbeq : (x == y) = (x.toModel.unpack.compare y.toModel.unpack == some .eq) := rfl
  rw [hbeq]
  cases hx : x.isNaN with
  | true => simp [compare_eq_none (.inl hx)]
  | false =>
    cases hy : y.isNaN with
    | true => simp [compare_eq_none (.inr hy)]
    | false =>
      obtain ⟨o, ho, hcompares⟩ := compare_eq hx hy
      rw [ho, ← hcompares.eq_eq]
      cases o <;> simp

/-! ### Smaller and larger -/

/-- The maximum of two numbers is worth the greater one. -/
theorem maximum_worth (hx : x.isNaN = false) (hy : y.isNaN = false) :
    Worth (maximum x y) (max (toRat x) (toRat y)) := by
  unfold maximum
  rw [if_neg (Bool.eq_false_iff.1 hx)]
  by_cases h : x < y
  · rw [if_pos h, max_eq_right (lt_iff.1 h).2.2.le]
    exact worth_toRat hy
  · have hle : toRat y ≤ toRat x := not_lt.1 fun hlt => h (lt_iff.2 ⟨hx, hy, hlt⟩)
    rw [if_neg h, max_eq_left hle]
    exact worth_toRat hx

/-- The minimum of two numbers is worth the smaller one. -/
theorem minimum_worth (hx : x.isNaN = false) (hy : y.isNaN = false) :
    Worth (minimum x y) (min (toRat x) (toRat y)) := by
  unfold minimum
  rw [if_neg (Bool.eq_false_iff.1 hx)]
  by_cases h : y < x
  · rw [if_pos h, min_eq_right (lt_iff.1 h).2.2.le]
    exact worth_toRat hy
  · have hle : toRat x ≤ toRat y := not_lt.1 fun hlt => h (lt_iff.2 ⟨hy, hx, hlt⟩)
    rw [if_neg h, min_eq_left hle]
    exact worth_toRat hx

/-- A maximum passes over NaN on the left. -/
theorem maximum_of_isNaN_left (hx : x.isNaN = true) (y : Float) : maximum x y = y :=
  if_pos hx

/-- A maximum passes over NaN on the right. -/
theorem maximum_of_isNaN_right (hx : x.isNaN = false) (hy : y.isNaN = true) :
    maximum x y = x := by
  have hnot : ¬ x < y := by
    intro h
    rw [(lt_iff.1 h).2.1] at hy
    cases hy
  unfold maximum
  rw [if_neg (Bool.eq_false_iff.1 hx), if_neg hnot]

/-- A minimum passes over NaN on the left. -/
theorem minimum_of_isNaN_left (hx : x.isNaN = true) (y : Float) : minimum x y = y :=
  if_pos hx

end

/-! ### Integers -/

/-- Integers of up to 53 bits are doubles, -/
theorem isDouble_intCast {n : ℤ} (h : |n| < 2 ^ 53) : IsDouble n := by
  rw [Int.abs_eq_natAbs] at h
  refine ⟨n.natAbs, 0, by omega, by norm_num, ?_⟩
  rw [zpow_zero, mul_one, Nat.cast_natAbs]
  push_cast
  rfl

/-- and are left as they are by rounding. -/
theorem rounded_intCast {n : ℤ} (h : |n| < 2 ^ 53) : rounded n = n ∧ |(n : ℚ)| < limit := by
  have hlt : |(n : ℚ)| < limit := by
    have hpow : (2 : ℚ) ^ 53 ≤ limit := by
      unfold limit
      exact pow_le_pow_right₀ one_le_two (by norm_num)
    exact lt_of_lt_of_le (by exact_mod_cast h) hpow
  exact ⟨(isDouble_intCast h).rounded_eq hlt.le, hlt⟩

/-- A double that is worth a number below the limit is finite. -/
theorem Worth.isFinite {x : Float} {q : ℚ} (h : Worth x q) (hlt : |q| < limit) :
    x.isFinite = true :=
  isFinite_iff.2 ⟨h.notNaN, h.toRat_eq ▸ hlt⟩

/-- A natural of 53 bits is converted exactly. -/
theorem ofNat_worth {n : ℕ} (h : n < 2 ^ 53) : Worth (Float.ofNat n) n := by
  have habs : |(n : ℤ)| < 2 ^ 53 := by
    rw [Int.abs_eq_natAbs]
    omega
  have hrounded := rounded_intCast habs
  rw [Int.cast_natCast] at hrounded
  -- A natural is converted as a literal: its 64 bits, times the zeroth power of ten.
  have hone : Worth Float.exactlyRepresentablePowersOfTen[0] 1 := by
    refine ⟨by decide, ?_⟩
    have hunpack : ∃ h, Float.exactlyRepresentablePowersOfTen[0].toModel.unpack
        = .finite .positive (2 ^ 52) (-52) h := ⟨by decide, rfl⟩
    obtain ⟨_, hunpack⟩ := hunpack
    rw [toRat, hunpack, value_finite, signed]
    norm_num
  -- The 64 bits hold the natural as it is, and its double needs no rounding.
  have hself : Worth n.toUInt64.toFloat n := by
    have hnat : n.toUInt64.toNat = n := by
      rw [Nat.toUInt64_eq, UInt64.toNat_ofNat', Nat.mod_eq_of_lt (by omega)]
    have hpacked : n.toUInt64.toFloat
        = packed (UnpackedFloat.normalize .binary64 (n.toUInt64.toNat : ℤ) 0 .positive) := rfl
    have hworth := (normalize_denotes (n : ℤ) 0 .positive).worth
    rw [zpow_zero, mul_one, Int.cast_natCast] at hworth
    rw [hpacked, hnat]
    rwa [← rounded, hrounded.1] at hworth
  have hofNat : Float.ofNat n = n.toUInt64.toFloat * Float.exactlyRepresentablePowersOfTen[0] := by
    change Float.ofScientific n false 0 = _
    rw [Float.ofScientific, dif_pos ⟨h, by norm_num⟩]
    rfl
  have hmul := mul_worth (hself.isFinite hrounded.2)
    (hone.isFinite (by have := (rounded_intCast (n := 1) (by norm_num)).2; simpa using this))
  rwa [hself.toRat_eq, hone.toRat_eq, mul_one, hrounded.1, ← hofNat] at hmul

/-- **Integers of up to 53 bits are converted exactly.** -/
theorem ofInt_worth {n : ℤ} (h : |n| < 2 ^ 53) : Worth (Float.ofInt n) n := by
  cases n with
  | ofNat k => exact ofNat_worth (by simpa using h)
  -- A negative integer is converted as the negative of a natural.
  | negSucc k =>
    have hk : k + 1 < 2 ^ 53 := by
      rw [Int.abs_eq_natAbs] at h
      omega
    have hnat := ofNat_worth hk
    have hneg := neg_worth hnat.notNaN
    rw [hnat.toRat_eq] at hneg
    rw [Int.cast_negSucc]
    exact hneg

/-- Integers of 53 bits are told apart by the doubles they are converted to. -/
theorem ofInt_inj {m n : ℤ} (hm : |m| < 2 ^ 53) (hn : |n| < 2 ^ 53)
    (h : Float.ofInt m = Float.ofInt n) : m = n := by
  have hvalue := (ofInt_worth hm).toRat_eq
  rw [h, (ofInt_worth hn).toRat_eq] at hvalue
  exact_mod_cast hvalue.symm

/-- A literal is worth the integer it is equal to. -/
theorem literal_worth {n : ℤ} {x : Float} (h : |n| < 2 ^ 53) (heq : Float.ofInt n = x) :
    Worth x n :=
  heq ▸ ofInt_worth h

/-- The literal zero is worth zero. -/
theorem zero_worth : Worth 0.0 0 := by
  have h := literal_worth (n := 0) (by norm_num) (rfl : Float.ofInt 0 = 0.0)
  rwa [Int.cast_zero] at h

/-- The literal one is worth one. -/
theorem one_worth : Worth 1.0 1 := by
  have h := literal_worth (n := 1) (by norm_num) (rfl : Float.ofInt 1 = 1.0)
  rwa [Int.cast_one] at h

/-! ### Floors -/

/-- Shifting to the right is the floor of the number, for negative ones as well. -/
theorem floorScaled_eq (v e : ℤ) : floorScaled v e = ⌊(v : ℚ) * 2 ^ e⌋ := by
  unfold floorScaled
  split_ifs with h
  · obtain ⟨k, rfl⟩ := Int.eq_ofNat_of_zero_le h
    rw [Int.toNat_natCast, zpow_natCast]
    exact_mod_cast (Int.floor_intCast (R := ℚ) (v * 2 ^ k)).symm
  · obtain ⟨k, rfl⟩ : ∃ k : ℕ, e = -k := ⟨(-e).toNat, by omega⟩
    rw [neg_neg, Int.toNat_natCast, zpow_neg, zpow_natCast, ← div_eq_mul_inv]
    exact_mod_cast (Rat.floor_intCast_div_natCast v (2 ^ k)).symm

/-- **The floor of a double is that of the number it stands for,** held inside the range. -/
theorem floorWithin_eq {lo hi : ℤ} (hlo : -limit ≤ lo) (hle : lo ≤ hi) (hhi : (hi : ℚ) ≤ limit)
    {x : Float} (hx : x.isNaN = false) : floorWithin lo hi x = within lo hi ⌊toRat x⌋ := by
  have hsettled := settled hx
  unfold floorWithin toRat
  generalize x.toModel.unpack = u at hsettled ⊢
  -- An infinity is held at the end of the range, which the limit is beyond.
  cases hsettled with
  | infinity s =>
    cases s with
    | negative =>
      have : ⌊-limit⌋ ≤ lo := Int.floor_le_iff.2 (by linarith)
      change lo = within lo hi ⌊-limit⌋
      unfold within
      omega
    | positive =>
      have : hi ≤ ⌊limit⌋ := Int.le_floor.2 hhi
      change hi = within lo hi ⌊limit⌋
      unfold within
      omega
  | finite hu hlt =>
    cases u with
    | zero s =>
      change within lo hi 0 = within lo hi ⌊(0 : ℚ)⌋
      rw [Int.floor_zero]
    | finite s m e hm =>
      change within lo hi (floorScaled (s.apply m) e) = _
      -- The scaled mantissa is shifted as an integer, which is the floor of the number.
      rw [floorScaled_eq, cast_apply, signed_mul_right, Int.cast_natCast, value_finite]
    | infinity s => exact hu.elim
    | notANumber => exact hu.elim

end Exact
end GlobeView

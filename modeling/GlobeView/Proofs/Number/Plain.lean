/-
# What is written in plain notation is read back

A text of plain notation can be taken apart in one way only: into a sign, the digits
before the point and the digits behind it (`IsPlaced.unique`).  The number they denote
is the shortest decimal of the double (`isPlaced_positional`), and that rounds to the
double.  So two doubles that are written alike are the same double, down to the sign
of a zero, or both NaN (`plain_eq_iff`).  As there is one NaN only, no two doubles are
written alike (`plain_injective`).
-/

import GlobeView.Proofs.Number.Fixed
import GlobeView.Proofs.Number.Shortest
import GlobeView.Proofs.Text.Runs

namespace GlobeView

open Float.Model UnpackedFloat

/-! ### Plain decimals are read in one way -/

/-- **A text is the plain decimal of one number only,** with one number of places. -/
theorem IsPlaced.unique {places places' n n' : ℕ} {text : List Char} (h : IsPlaced places n text)
    (h' : IsPlaced places' n' text) : places = places' ∧ n = n' := by
  -- The whole part ends at the point or with the text, so both texts have the same.
  have hpoint (places : ℕ) (fraction : List Char) :
      NotInFront Char.isDigit (if places = 0 then [] else '.' :: fraction) := by
    split_ifs
    · exact fun c hc => by cases hc
    · exact notInFront_cons.2 rfl
  cases h with
  | @intro whole fraction hwhole hfraction hplaces hvalue =>
    generalize htext : whole ++ (if places = 0 then [] else '.' :: fraction) = text at h'
    cases h' with
    | @intro whole' fraction' hwhole' hfraction' hplaces' hvalue' =>
      obtain ⟨rfl, hrest⟩ := run_append_cancel hwhole.isDigit hwhole'.isDigit
        (hpoint places fraction) (hpoint places' fraction') htext
      have hsame : fraction = fraction' := by
        split_ifs at hrest with h₁ h₂ h₂
        · rw [List.eq_nil_of_length_eq_zero (hplaces.trans h₁),
            List.eq_nil_of_length_eq_zero (hplaces'.trans h₂)]
        · exact (List.cons.inj hrest).2
      subst hsame
      exact ⟨hplaces.symm.trans hplaces', hvalue.symm.trans hvalue'⟩

/-- A numeral is a plain decimal without places, -/
theorem Numeral.isPlaced {ds : List Char} (h : Numeral ds) : IsPlaced 0 (natOfDigits ds) ds := by
  have hplaced := IsPlaced.intro h (List.forall_mem_nil _) rfl rfl
  rwa [List.length_nil, if_pos rfl, List.append_nil] at hplaced

/-- and with digits behind a point one with as many places. -/
theorem Numeral.isPlaced_point {whole fraction : List Char} (h : Numeral whole)
    (hfraction : ∀ c ∈ fraction, c.isDigit = true) (hne : fraction ≠ []) :
    IsPlaced fraction.length (natOfDigits (whole ++ fraction)) (whole ++ '.' :: fraction) := by
  have hplaced := IsPlaced.intro h hfraction rfl rfl
  rwa [if_neg (List.length_pos_of_ne_nil hne).ne'] at hplaced

/-- A plain decimal begins with a digit. -/
theorem IsPlaced.exists_digit {places n : ℕ} {text : List Char} (h : IsPlaced places n text) :
    ∃ c rest, text = c :: rest ∧ c.isDigit = true := by
  cases h with
  | @intro whole fraction hwhole hfraction hplaces hvalue =>
    obtain ⟨c, rest, rfl⟩ := List.exists_cons_of_ne_nil hwhole.ne_nil
    exact ⟨c, _, rfl, hwhole.isDigit c List.mem_cons_self⟩

/-! ### Positional notation -/

/-- The digit zero alone is a numeral, the only one that begins with it. -/
theorem numeral_zero : Numeral ['0'] :=
  ⟨by simp, by simp, by simp⟩

/-- Zeros are digits. -/
theorem isDigit_of_mem_zeros (k : ℕ) : ∀ c ∈ List.replicate k '0', c.isDigit = true := by
  intro c hc
  rw [List.eq_of_mem_replicate hc]
  rfl

/-- A positive natural is written without leading zeros. -/
theorem head?_decimalDigits_ne_of_pos {n : ℕ} (h : 0 < n) :
    (decimalDigits n).head? ≠ some '0' := by
  intro hzero
  obtain ⟨rest, hrest⟩ := List.head?_eq_some_iff.1 hzero
  have hvalue := natOfDigits_decimalDigits n
  cases rest with
  | nil =>
    rw [hrest] at hvalue
    exact h.ne hvalue
  | cons c rest => exact head?_decimalDigits_ne (by rw [hrest]; simp) hzero

section

variable {ds : List Char} {places : ℕ} (hdigits : ∀ c ∈ ds, c.isDigit = true)

include hdigits

/-- Zeros behind digits: a number without places. -/
theorem isPlaced_append_zeros (hhead : ds.head? ≠ some '0') (hne : ds ≠ []) (k : ℕ) :
    IsPlaced 0 (natOfDigits ds * 10 ^ k) (ds ++ List.replicate k '0') := by
  have hwhole : Numeral (ds ++ List.replicate k '0') := by
    refine ⟨by simp [hne], List.forall_mem_append.2 ⟨hdigits, isDigit_of_mem_zeros k⟩, fun _ => ?_⟩
    rwa [List.head?_append_of_ne_nil _ hne]
  have hplaced := hwhole.isPlaced
  rwa [natOfDigits_append, natOfDigits_replicate_zero, List.length_replicate,
    Nat.add_zero] at hplaced

/-- A point among digits. -/
theorem isPlaced_take_drop (hhead : ds.head? ≠ some '0') (hpos : 0 < places)
    (hlt : places < ds.length) :
    IsPlaced places (natOfDigits ds)
      (ds.take (ds.length - places) ++ '.' :: ds.drop (ds.length - places)) := by
  have hlength : (ds.drop (ds.length - places)).length = places := by
    rw [List.length_drop]
    omega
  -- There are more digits than places, so the whole part is not empty.
  have hwhole : Numeral (ds.take (ds.length - places)) := by
    refine ⟨List.ne_nil_of_length_pos ?_, fun c hc => hdigits c (List.mem_of_mem_take hc),
      fun _ => ?_⟩
    · rw [List.length_take]
      omega
    · rwa [List.head?_take, if_neg (by omega)]
  have hfraction : ds.drop (ds.length - places) ≠ [] :=
    List.ne_nil_of_length_pos (hlength.symm ▸ hpos)
  have hplaced := hwhole.isPlaced_point (fun c hc => hdigits c (List.mem_of_mem_drop hc)) hfraction
  rwa [hlength, List.take_append_drop] at hplaced

/-- Digits behind the point, and zeros before them. -/
theorem isPlaced_zero_point (hne : ds ≠ []) (hle : ds.length ≤ places) :
    IsPlaced places (natOfDigits ds)
      ('0' :: '.' :: (List.replicate (places - ds.length) '0' ++ ds)) := by
  let zeros := List.replicate (places - ds.length) '0'
  have hlength : (zeros ++ ds).length = places := by
    rw [List.length_append, List.length_replicate]
    omega
  -- The zeros in front do not count.
  have hvalue : natOfDigits (['0'] ++ (zeros ++ ds)) = natOfDigits ds := by
    have hfront : ['0'] ++ zeros = List.replicate (places - ds.length + 1) '0' :=
      List.replicate_succ.symm
    rw [← List.append_assoc, hfront, natOfDigits_append, natOfDigits_replicate_zero,
      Nat.zero_mul, Nat.zero_add]
  have hplaced := numeral_zero.isPlaced_point
    (List.forall_mem_append.2 ⟨isDigit_of_mem_zeros _, hdigits⟩)
    (List.append_ne_nil_of_right_ne_nil zeros hne)
  rwa [hlength, hvalue] at hplaced

end

namespace Decimal

/-- A decimal is a quotient of naturals, whatever the sign of its exponent. -/
theorem value_eq_div (d : Decimal) :
    d.value = (d.digits * 10 ^ d.exponent.toNat : ℕ) / 10 ^ (-d.exponent).toNat := by
  rw [eq_div_iff (by positivity), value, mul_assoc, zpow_mul_pow_toNat_neg (by norm_num)]
  push_cast
  rfl

/-- **Positional notation is the plain decimal of the number,** with a place for every power of
ten that the last digit stands below the point. -/
theorem isPlaced_positional {d : Decimal} (hpos : 0 < d.digits) :
    IsPlaced (-d.exponent).toNat (d.digits * 10 ^ d.exponent.toNat) d.positional := by
  have hdigits : ∀ c ∈ decimalDigits d.digits, c.isDigit = true := fun _ =>
    isDigit_of_mem_decimalDigits
  have hvalue := natOfDigits_decimalDigits d.digits
  have hhead := head?_decimalDigits_ne_of_pos hpos
  have hne := decimalDigits_ne_nil d.digits
  unfold positional
  dsimp only
  generalize decimalDigits d.digits = ds at *
  -- Zeros behind the digits, a point among them, or zeros in front.
  split_ifs with hexp hlen
  · have hplaces : (-d.exponent).toNat = 0 := by omega
    rw [hplaces, ← hvalue]
    exact isPlaced_append_zeros hdigits hhead hne _
  · have hnone : d.exponent.toNat = 0 := by omega
    rw [hnone, Nat.pow_zero, Nat.mul_one, ← hvalue]
    exact isPlaced_take_drop hdigits hhead (by omega) hlen
  · have hnone : d.exponent.toNat = 0 := by omega
    rw [hnone, Nat.pow_zero, Nat.mul_one, ← hvalue]
    exact isPlaced_zero_point hdigits hne (by omega)

/-- What is taken for a positive double is positive. -/
theorem digits_shortest_pos (tie : Tie) {m : ℕ} {e : ℤ} (hpos : 0 < m) (hm : m < 2 ^ 53)
    (he : -1074 ≤ e) (hfull : 2 ^ 52 ≤ m ∨ e = -1074) : 0 < (shortest tie m e).digits := by
  have hvalue := magnitude_value_shortest tie hpos hm he hfull
  rw [Nat.pos_iff_ne_zero]
  intro hzero
  have hdouble : (0 : ℚ) < m * 2 ^ e := by positivity
  rw [value, hzero, Nat.cast_zero, zero_mul, Exact.magnitude_zero] at hvalue
  exact hdouble.ne hvalue

end Decimal

/-! ### Doubles -/

/-- The sign of an unpacked double; NaN has none and counts as positive. -/
def signOf : UnpackedFloat → Sign
  | .notANumber => .positive
  | .infinity s => s
  | .zero s => s
  | .finite s _ _ _ => s

/-- Plain notation behind the sign. -/
def unsignedText : UnpackedFloat → List Char
  | .notANumber => ['N', 'a', 'N']
  | .infinity _ => ['i', 'n', 'f']
  | .zero _ => ['0']
  | .finite _ m e _ => (Decimal.shortest .up m e).positional

/-- A double is written as its sign, and then as its magnitude. -/
theorem plain_eq (x : Float) :
    plain x = signText (signOf x.toModel.unpack) ++ unsignedText x.toModel.unpack := by
  unfold plain
  cases x.toModel.unpack <;> rfl

open Exact

/-- **Behind the sign of a finite double stands a plain decimal that rounds to it.** -/
theorem Exact.Canonical.isPlaced {u : UnpackedFloat} (h : Canonical u) :
    ∃ places n, IsPlaced places n (unsignedText u) ∧
      magnitude ((n : ℚ) / 10 ^ places) = |value u| := by
  cases u with
  | zero s =>
    refine ⟨0, 0, numeral_zero.isPlaced, ?_⟩
    rw [Nat.cast_zero, zero_div, magnitude_zero, value_zero, abs_zero]
  | finite s m e hm =>
    have hpos := Decimal.digits_shortest_pos .up hm h.1 h.2.1 h.2.2
    refine ⟨_, _, Decimal.isPlaced_positional hpos, ?_⟩
    rw [← Decimal.value_eq_div, Decimal.magnitude_value_shortest .up hm h.1 h.2.1 h.2.2,
      value_finite, abs_signed, abs_of_nonneg (by positivity)]
  | infinity s => exact h.elim
  | notANumber => exact h.elim

/-- Finite doubles are determined by their sign and what they are worth without it. -/
theorem Exact.Canonical.eq_of_abs_value_eq {u v : UnpackedFloat} (hu : Canonical u)
    (hv : Canonical v) (hsign : signOf u = signOf v) (h : |value u| = |value v|) : u = v := by
  have hpos {m : ℕ} (hm : 0 < m) (e : ℤ) : 0 < (m : ℚ) * 2 ^ e := by positivity
  -- Zero is not positive, and two mantissas on canonical scales are equal as numbers only if
  -- they are the same.
  cases u with
  | zero s =>
    cases v with
    | zero t => exact congrArg _ hsign
    | finite t m e hm =>
      rw [value_zero, abs_zero, value_finite, abs_signed, abs_of_pos (hpos hm e)] at h
      exact absurd h (hpos hm e).ne
    | infinity t => exact hv.elim
    | notANumber => exact hv.elim
  | finite s m e hm =>
    cases v with
    | zero t =>
      rw [value_zero, abs_zero, value_finite, abs_signed, abs_of_pos (hpos hm e)] at h
      exact absurd h (hpos hm e).ne'
    | finite t m' e' hm' =>
      rw [value_finite, value_finite, abs_signed, abs_signed, abs_of_pos (hpos hm e),
        abs_of_pos (hpos hm' e')] at h
      have heq := (compares_finite hu hv).eq_eq.2 h
      rw [Ordering.then_eq_eq, compare_eq_iff_eq, compare_eq_iff_eq] at heq
      obtain ⟨rfl, rfl⟩ := heq
      obtain rfl : s = t := hsign
      rfl
    | infinity t => exact hv.elim
    | notANumber => exact hv.elim
  | infinity s => exact hu.elim
  | notANumber => exact hu.elim

/-- A text that does not begin with a minus sign is found behind any sign. -/
theorem signText_append_cancel {s t : Sign} {a b : List Char} (ha : NotInFront (· == '-') a)
    (hb : NotInFront (· == '-') b) (h : signText s ++ a = signText t ++ b) : s = t ∧ a = b := by
  have hminus {a b : List Char} (hb : NotInFront (· == '-') b) : '-' :: a ≠ b := by
    rintro rfl
    exact Bool.noConfusion (notInFront_cons.1 hb)
  cases s <;> cases t
  · exact ⟨rfl, (List.cons.inj h).2⟩
  · exact absurd h (hminus hb)
  · exact absurd h.symm (hminus ha)
  · exact ⟨rfl, h⟩

/-- A double is unpacked as NaN, an infinity or a canonical double. -/
theorem isNaN_or_infinity_or_canonical (x : Float) :
    x.toModel.unpack = .notANumber ∨ (∃ s, x.toModel.unpack = .infinity s) ∨
      Canonical x.toModel.unpack := by
  cases hx : x.isNaN with
  | true => exact .inl (Exact.isNaN_iff.1 hx)
  | false =>
    have hsettled := settled hx
    generalize x.toModel.unpack = u at hsettled ⊢
    cases hsettled with
    | infinity s => exact .inr (.inl ⟨s, rfl⟩)
    | finite h _ => exact .inr (.inr h)

/-- A finite magnitude is written with a digit in front. -/
theorem Exact.Canonical.exists_digit {u : UnpackedFloat} (h : Canonical u) :
    ∃ c rest, unsignedText u = c :: rest ∧ c.isDigit = true := by
  obtain ⟨places, n, hplaced, -⟩ := h.isPlaced
  exact hplaced.exists_digit

/-- No magnitude begins with a minus sign, not even that of NaN or an infinity. -/
theorem notInFront_unsignedText (x : Float) :
    NotInFront (· == '-') (unsignedText x.toModel.unpack) := by
  rcases isNaN_or_infinity_or_canonical x with h | ⟨s, h⟩ | h
  · rw [h]
    exact notInFront_cons.2 rfl
  · rw [h]
    exact notInFront_cons.2 rfl
  · obtain ⟨c, rest, htext, hc⟩ := h.exists_digit
    rw [htext, notInFront_cons, beq_eq_false_iff_ne]
    rintro rfl
    cases hc

/-- **Doubles are written alike only if they are the same,** down to the sign of a zero, or both
NaN. -/
theorem plain_eq_iff {x y : Float} :
    plain x = plain y ↔ x.toModel.unpack = y.toModel.unpack := by
  constructor
  · intro h
    rw [plain_eq, plain_eq] at h
    obtain ⟨hsign, htext⟩ :=
      signText_append_cancel (notInFront_unsignedText x) (notInFront_unsignedText y) h
    -- NaN and the infinities are written with letters, and finite doubles with a digit in front.
    have hletter {u : UnpackedFloat} (hu : Canonical u) {c : Char} {rest : List Char}
        (hc : c.isDigit = false) : unsignedText u ≠ c :: rest := by
      obtain ⟨d, rest', hd, hdigit⟩ := hu.exists_digit
      rintro heq
      rw [hd] at heq
      rw [(List.cons.inj heq).1, hc] at hdigit
      cases hdigit
    rcases isNaN_or_infinity_or_canonical x with hx | ⟨s, hx⟩ | hx <;>
      rcases isNaN_or_infinity_or_canonical y with hy | ⟨t, hy⟩ | hy
    · rw [hx, hy]
    · rw [hx, hy] at htext
      cases htext
    · rw [hx] at htext
      exact absurd htext.symm (hletter hy rfl)
    · rw [hx, hy] at htext
      cases htext
    · rw [hx, hy] at hsign ⊢
      exact congrArg _ hsign
    · rw [hx] at htext
      exact absurd htext.symm (hletter hy rfl)
    · rw [hy] at htext
      exact absurd htext (hletter hx rfl)
    · rw [hy] at htext
      exact absurd htext (hletter hx rfl)
    · obtain ⟨places, n, hplaced, hvalue⟩ := hx.isPlaced
      obtain ⟨places', n', hplaced', hvalue'⟩ := hy.isPlaced
      -- The same digits stand for one number, and that is rounded to one magnitude.
      obtain ⟨rfl, rfl⟩ := (htext ▸ hplaced).unique hplaced'
      exact hx.eq_of_abs_value_eq hy hsign (hvalue.symm.trans hvalue')
  · intro h
    rw [plain_eq, plain_eq, h]

/-- **Different doubles are written differently.** -/
theorem plain_injective : Function.Injective plain := by
  intro x y h
  exact eq_of_unpack_eq (plain_eq_iff.1 h)

end GlobeView

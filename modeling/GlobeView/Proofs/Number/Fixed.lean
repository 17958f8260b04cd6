/-
# Numbers with a set number of places

`IsPlaced places n text` says, without printing anything, that a text is the plain
decimal of `n / 10^places`: a numeral, and behind a point so many digits, that
together denote `n`.  `toFixed x places` is such a text, after a minus sign for
numbers below zero, of the natural closest to `|x| · 10^places`, halves going up
(`toFixed_isPlaced`).  It is found on two ways:

| the double, written out in full | what is printed |
| --- | --- |
| has a five and zeros after the last place | the text before them, counted up by one |
| has anything else there | the closest decimal, which is the same for both rules |

A finite double is a multiple of `2^-1074`, so 1075 more places write it out in
full (`quotientToEven_exact`), and what stands in them is half a unit exactly when
the double is halfway between two decimals (`div_and_mod_of_exact`).  Counting up by
one turns a run of nines over into what stands before it (`carry_reverse_append`).
-/

import GlobeView.Proofs.Number.Digits
import GlobeView.Proofs.Number.Doubles

namespace GlobeView

/-! ### Plain decimals -/

/-- Digits without a superfluous zero in front. -/
structure Numeral (ds : List Char) : Prop where
  ne_nil : ds ≠ []
  isDigit : ∀ c ∈ ds, c.isDigit = true
  head : 1 < ds.length → ds.head? ≠ some '0'

/-- The text is the plain decimal of `n / 10^places` with exactly so many places. -/
inductive IsPlaced (places n : ℕ) : List Char → Prop where
  | intro {whole fraction : List Char} (hwhole : Numeral whole)
      (hfraction : ∀ c ∈ fraction, c.isDigit = true) (hplaces : fraction.length = places)
      (hvalue : natOfDigits (whole ++ fraction) = n) :
      IsPlaced places n (whole ++ if places = 0 then [] else '.' :: fraction)

/-- Digits are a numeral when their number does not fit without the first one. -/
theorem Numeral.of_le {ds : List Char} (hne : ds ≠ []) (hdigits : ∀ c ∈ ds, c.isDigit = true)
    (h : 1 < ds.length → 10 ^ (ds.length - 1) ≤ natOfDigits ds) : Numeral ds := by
  refine ⟨hne, hdigits, ?_⟩
  intro hlen hzero
  obtain ⟨ds, rfl⟩ := List.head?_eq_some_iff.1 hzero
  have hlt := (natOfDigits_cons_lt_iff hdigits).2 rfl
  have hle := h hlen
  rw [List.length_cons, Nat.add_sub_cancel] at hle
  omega

/-- A numeral does not begin with a zero, so its length bounds it from below. -/
theorem Numeral.pow_le {ds : List Char} (h : Numeral ds) (hlen : 1 < ds.length) :
    10 ^ (ds.length - 1) ≤ natOfDigits ds := by
  cases ds with
  | nil => simp at hlen
  | cons c ds =>
    rw [List.length_cons, Nat.add_sub_cancel]
    refine Nat.le_of_not_lt fun hlt => h.head hlen ?_
    rw [(natOfDigits_cons_lt_iff h.isDigit).1 hlt]
    rfl

/-- Numerals of one number are the same. -/
theorem Numeral.eq_of_natOfDigits_eq {ds es : List Char} (hds : Numeral ds) (hes : Numeral es)
    (h : natOfDigits ds = natOfDigits es) : ds = es := by
  -- A longer numeral stands for a greater number, as neither begins with a zero.
  have hle {ds es : List Char} (hds : Numeral ds) (hes : Numeral es)
      (h : natOfDigits ds = natOfDigits es) : ds.length ≤ es.length := by
    refine le_of_not_gt fun hlt => ?_
    have hpos := List.length_pos_of_ne_nil hes.ne_nil
    have hlow := hds.pow_le (by omega)
    have hhigh := natOfDigits_lt hes.isDigit
    have hpow : 10 ^ es.length ≤ 10 ^ (ds.length - 1) :=
      Nat.pow_le_pow_right (by norm_num) (by omega)
    omega
  exact GlobeView.eq_of_natOfDigits_eq hds.isDigit hes.isDigit
    ((hle hds hes h).antisymm (hle hes hds h.symm)) h

/-- **`placed` writes plain decimals.** -/
theorem isPlaced_placed (places n : ℕ) : IsPlaced places n (placed places n) := by
  let ds := paddedDigits (places + 1) n
  have hdigits : ∀ c ∈ ds, c.isDigit = true := fun _ => isDigit_of_mem_paddedDigits
  have hlen : ds.length = max (places + 1) (decimalDigits n).length := List.length_leftpad ..
  let cut := ds.length - places
  have hcut : (ds.take cut).length = cut := List.length_take_of_le (Nat.sub_le ..)
  have hpos : 0 < cut := by omega
  have hwhole : Numeral (ds.take cut) := by
    refine ⟨List.ne_nil_of_length_pos (by omega), fun c hc => hdigits c (List.mem_of_mem_take hc),
      fun hlong => ?_⟩
    -- More than one digit before the point means that nothing was padded.
    have hplain : ds = decimalDigits n := by
      have hzero : places + 1 - (decimalDigits n).length = 0 := by omega
      change List.replicate (places + 1 - (decimalDigits n).length) '0' ++ decimalDigits n = _
      rw [hzero, List.replicate_zero, List.nil_append]
    rw [List.head?_take, if_neg hpos.ne', hplain]
    exact head?_decimalDigits_ne (by rw [← hplain]; omega)
  have hplaced : IsPlaced places n
      (ds.take cut ++ if places = 0 then [] else '.' :: ds.drop cut) := by
    -- The fraction is what is behind the cut, so it has just as many digits as places.
    refine .intro hwhole (fun c hc => hdigits c (List.mem_of_mem_drop hc)) ?_ ?_
    · rw [List.length_drop]
      omega
    · rw [List.take_append_drop, natOfDigits_paddedDigits]
  unfold placed
  dsimp only
  split_ifs at hplaced ⊢ with h
  · have hall : ds.take cut = ds := List.take_of_length_le (by omega)
    rwa [List.append_nil, hall] at hplaced
  · exact hplaced

/-- **A decimal is cut after an earlier place by cutting its text.**  What is left is the
decimal of what the number holds of the larger unit, and the digits that are cut off
denote the rest. -/
theorem IsPlaced.cut {places more n : ℕ} {text : List Char} (h : IsPlaced (places + more) n text)
    (hmore : 0 < more) :
    IsPlaced places (n / 10 ^ more) (withoutPoint (text.take (text.length - more))) ∧
      DigitRun more more (text.drop (text.length - more)) ∧
      natOfDigits (text.drop (text.length - more)) = n % 10 ^ more := by
  cases h with
  | @intro whole fraction hwhole hfraction hplaces hvalue =>
    rw [if_neg (by omega)]
    -- The places that are cut off are the last ones of the fraction.
    obtain ⟨front, tail, rfl, hfront, htail⟩ : ∃ front tail, fraction = front ++ tail ∧
        front.length = places ∧ tail.length = more :=
      ⟨fraction.take places, fraction.drop places, (List.take_append_drop ..).symm,
        List.length_take_of_le (by omega), by rw [List.length_drop]; omega⟩
    have hdigits : ∀ c ∈ tail, c.isDigit = true := fun c hc =>
      hfraction c (List.mem_append_right _ hc)
    have htext : whole ++ '.' :: (front ++ tail) = (whole ++ '.' :: front) ++ tail := by simp
    have hcut : ((whole ++ '.' :: front) ++ tail).length - more
        = (whole ++ '.' :: front).length := by
      rw [List.length_append, htail, Nat.add_sub_cancel]
    obtain ⟨hdiv, hmod⟩ := natOfDigits_div_mod (whole ++ front) hdigits
    rw [List.append_assoc, hvalue, htail] at hdiv hmod
    rw [htext, hcut, List.take_left, List.drop_left]
    refine ⟨?_, ⟨hdigits, htail.ge, htail.le⟩, hmod.symm⟩
    have hplaced := IsPlaced.intro hwhole (fun c hc => hfraction c (List.mem_append_left _ hc))
      hfront hdiv.symm
    unfold withoutPoint
    -- If no places are left in front, the point goes as well.
    rcases List.eq_nil_or_concat' front with rfl | ⟨init, c, rfl⟩
    · have hzero : places = 0 := hfront.symm
      rw [if_pos hzero, List.append_nil] at hplaced
      rwa [List.getLast?_append_cons, List.getLast?_singleton, if_pos rfl, List.dropLast_concat]
    · have hc : c ≠ '.' := by
        rintro rfl
        exact absurd (hfraction '.' (by simp)) (by decide)
      rw [if_neg (by simp at hfront; omega)] at hplaced
      rw [← List.cons_append, ← List.append_assoc, List.getLast?_concat,
        if_neg (by simpa using hc)]
      rwa [← List.cons_append, ← List.append_assoc] at hplaced

/-! ### Counting up -/

/-- The digit after one that is no nine. -/
theorem nextDigit_spec {c : Char} (hc : c.isDigit = true) (hne : c ≠ '9') :
    (nextDigit c).isDigit = true ∧
      (nextDigit c).toNat - '0'.toNat = c.toNat - '0'.toNat + 1 := by
  have h48 : '0'.toNat = 48 := rfl
  have h57 : '9'.toNat = 57 := rfl
  have hrange := Char.isDigit_iff_toNat.1 hc
  have hnine : c.toNat ≠ 57 := fun h => hne (Char.toNat_inj.1 (h.trans h57.symm))
  -- The digits stand one behind the other, so the next character is the next digit.
  have hnext : (nextDigit c).toNat = c.toNat + 1 := by
    have hvalid : (c.toNat + 1).isValidChar := .inl (by omega)
    rw [nextDigit, Char.ofNat, dif_pos hvalid]
    rfl
  refine ⟨Char.isDigit_iff_toNat.2 (by omega), by omega⟩

/-- **Counting up a run of digits** either turns it over, when it consists of nines, and
goes on with what stands before it, or leaves what stands before it alone. -/
theorem carry_reverse_append {ds : List Char} (h : ∀ c ∈ ds, c.isDigit = true) :
    (natOfDigits ds + 1 = 10 ^ ds.length ∧
        ∀ rest, carry (ds.reverse ++ rest) = List.replicate ds.length '0' ++ carry rest) ∨
      ∃ es : List Char, (∀ c ∈ es, c.isDigit = true) ∧ es.length = ds.length ∧
        natOfDigits es = natOfDigits ds + 1 ∧
        ∀ rest, carry (ds.reverse ++ rest) = es.reverse ++ rest := by
  -- From the last digit, where the carry begins: it passes over nines, and stops at any other.
  induction ds using List.reverseRecOn with
  | nil => exact .inl ⟨rfl, fun rest => rfl⟩
  | append_singleton ds c ih =>
    obtain ⟨hds, hc⟩ := List.forall_mem_append.1 h
    have hc : c.isDigit = true := hc c List.mem_cons_self
    have hpoint : c ≠ '.' := by
      rintro rfl
      exact absurd hc (by decide)
    have hlast (es : List Char) (d : Char) :
        natOfDigits (es ++ [d]) = natOfDigits es * 10 + (d.toNat - '0'.toNat) := by
      rw [natOfDigits_append, natOfDigits_cons]
      simp [natOfDigits]
    by_cases hnine : c = '9'
    · subst hnine
      -- A nine becomes a zero, and the carry goes on.
      have hturn (rest : List Char) :
          carry ((ds ++ ['9']).reverse ++ rest) = '0' :: carry (ds.reverse ++ rest) := by
        rw [List.reverse_append, List.reverse_singleton, List.singleton_append, List.cons_append,
          carry, if_neg (by decide), if_pos rfl]
      have h9 : '9'.toNat - '0'.toNat = 9 := rfl
      have h0 : '0'.toNat - '0'.toNat = 0 := rfl
      rcases ih hds with ⟨hvalue, hcarry⟩ | ⟨es, hes, hlen, hvalue, hcarry⟩
      · refine .inl ⟨?_, fun rest => ?_⟩
        · rw [hlast, List.length_append, List.length_singleton, Nat.pow_succ, ← hvalue, h9]
          omega
        · rw [hturn, hcarry, List.length_append, List.length_singleton, List.replicate_succ,
            List.cons_append]
      · have hzero : ∀ c ∈ ['0'], c.isDigit = true := List.forall_mem_singleton.2 rfl
        refine .inr ⟨es ++ ['0'], List.forall_mem_append.2 ⟨hes, hzero⟩, ?_, ?_, fun rest => ?_⟩
        · rw [List.length_append, List.length_append, hlen, List.length_singleton,
            List.length_singleton]
        · rw [hlast, hlast, hvalue, h9, h0]
          omega
        · rw [hturn, hcarry]
          simp
    · obtain ⟨hdigit, hnext⟩ := nextDigit_spec hc hnine
      refine .inr ⟨ds ++ [nextDigit c], List.forall_mem_append.2
        ⟨hds, List.forall_mem_singleton.2 hdigit⟩, ?_, ?_, fun rest => ?_⟩
      · rw [List.length_append, List.length_append, List.length_singleton, List.length_singleton]
      · rw [hlast, hlast, hnext]
        omega
      · rw [List.reverse_append, List.reverse_singleton, List.singleton_append, List.cons_append,
          carry, if_neg hpoint, if_neg hnine]
        simp

/-- Counting up a numeral gives the numeral of the next number. -/
theorem Numeral.increment {ds : List Char} (h : Numeral ds) :
    Numeral (incrementLastDigit ds) ∧
      natOfDigits (incrementLastDigit ds) = natOfDigits ds + 1 := by
  unfold incrementLastDigit
  rw [← List.append_nil ds.reverse]
  -- Either all digits are nines and a 1 goes in front, or there are as many digits as before.
  rcases carry_reverse_append h.isDigit with ⟨hvalue, hcarry⟩ | ⟨es, hes, hlen, hvalue, hcarry⟩
  · have hone : (carry (ds.reverse ++ [])).reverse = '1' :: List.replicate ds.length '0' := by
      rw [hcarry, List.reverse_append, List.reverse_replicate]
      rfl
    have hvalue' : natOfDigits ('1' :: List.replicate ds.length '0') = 10 ^ ds.length := by
      have h1 : '1'.toNat - '0'.toNat = 1 := rfl
      rw [natOfDigits_cons, natOfDigits_replicate_zero, List.length_replicate, h1, Nat.mul_one,
        Nat.add_zero]
    rw [hone]
    refine ⟨⟨List.cons_ne_nil _ _, ?_, fun _ => by simp⟩, hvalue'.trans hvalue.symm⟩
    intro c hc
    rcases List.mem_cons.1 hc with rfl | hc
    · rfl
    · rw [List.eq_of_mem_replicate hc]
      rfl
  · rw [hcarry, List.append_nil, List.reverse_reverse]
    have hpos := List.length_pos_of_ne_nil h.ne_nil
    refine ⟨.of_le (List.ne_nil_of_length_pos (by omega)) hes fun hlong => ?_, hvalue⟩
    -- A longer result begins with no zero, as the number has not become smaller.
    have := h.pow_le (by omega)
    rw [hlen]
    omega

/-- **Counting up the last place of a decimal gives the next decimal with as many places.** -/
theorem IsPlaced.increment {places n : ℕ} {text : List Char} (h : IsPlaced places n text) :
    IsPlaced places (n + 1) (incrementLastDigit text) := by
  cases h with
  | @intro whole fraction hwhole hfraction hplaces hvalue =>
    obtain ⟨hnumeral, hnext⟩ := hwhole.increment
    -- Without places the text is the whole part alone.
    by_cases hzero : places = 0
    · obtain rfl : fraction = [] := List.eq_nil_of_length_eq_zero (hplaces.trans hzero)
      rw [List.append_nil] at hvalue
      have hvalue' : natOfDigits (incrementLastDigit whole ++ []) = n + 1 := by
        rw [List.append_nil, hnext, hvalue]
      have hplaced := IsPlaced.intro hnumeral hfraction hplaces hvalue'
      rwa [if_pos hzero, List.append_nil] at hplaced ⊢
    · have hreverse : (whole ++ '.' :: fraction).reverse
          = fraction.reverse ++ '.' :: whole.reverse := by simp
      rw [if_neg hzero, incrementLastDigit, hreverse]
      -- If the fraction is all nines, the carry passes over the point into the whole part.
      rcases carry_reverse_append hfraction with ⟨hnines, hcarry⟩ | ⟨es, hes, hlen, hup, hcarry⟩
      · have hvalue' : natOfDigits (incrementLastDigit whole
            ++ List.replicate fraction.length '0') = n + 1 := by
          rw [natOfDigits_append, List.length_replicate, natOfDigits_replicate_zero, hnext,
            ← hvalue, natOfDigits_append, Nat.add_mul, ← hnines]
          omega
        have hzeros : ∀ c ∈ List.replicate fraction.length '0', c.isDigit = true := by
          intro c hc
          rw [List.eq_of_mem_replicate hc]
          rfl
        have hplaced := IsPlaced.intro hnumeral hzeros
          (List.length_replicate.trans hplaces) hvalue'
        rw [if_neg hzero] at hplaced
        rw [hcarry, carry, if_pos rfl, List.reverse_append, List.reverse_replicate,
          List.reverse_cons, List.append_assoc, List.singleton_append]
        exact hplaced
      · have hvalue' : natOfDigits (whole ++ es) = n + 1 := by
          rw [natOfDigits_append, hlen, hup, ← hvalue, natOfDigits_append]
          omega
        have hplaced := IsPlaced.intro hwhole hes (hlen.trans hplaces) hvalue'
        rw [if_neg hzero] at hplaced
        rw [hcarry, List.reverse_append, List.reverse_reverse, List.reverse_cons,
          List.reverse_reverse, List.append_assoc, List.singleton_append]
        exact hplaced

/-! ### Rounding -/

/-- The text is a five and zeros exactly when it denotes half of what it is a part of. -/
theorem isHalf_iff {k : ℕ} {ds : List Char} (h : DigitRun (k + 1) (k + 1) ds) :
    isHalf ds = true ↔ natOfDigits ds = 5 * 10 ^ k := by
  have hhalf : natOfDigits ('5' :: List.replicate k '0') = 5 * 10 ^ k := by
    have h5 : '5'.toNat - '0'.toNat = 5 := rfl
    rw [natOfDigits_cons, natOfDigits_replicate_zero, List.length_replicate, h5, Nat.mul_comm,
      Nat.add_zero]
  have hlen := h.length_eq
  -- Of that many digits only a five and zeros stand for one half.
  have htext : isHalf ds = true ↔ ds = '5' :: List.replicate k '0' := by
    cases ds with
    | nil => simp at hlen
    | cons c cs =>
      rw [List.length_cons, Nat.add_right_cancel_iff] at hlen
      rw [isHalf, Bool.and_eq_true, beq_iff_eq, List.all_eq_true, List.cons_eq_cons,
        List.eq_replicate_iff, and_iff_right hlen]
      simp only [beq_iff_eq]
  rw [htext]
  constructor
  · rintro rfl
    exact hhalf
  · intro hvalue
    -- Runs of the same length that stand for the same number are the same.
    refine eq_of_natOfDigits_eq h.isDigit ?_ ?_ (hvalue.trans hhalf.symm)
    · intro c hc
      rcases List.mem_cons.1 hc with rfl | hc
      · rfl
      · rw [List.eq_of_mem_replicate hc]
        rfl
    · rw [hlen, List.length_cons, List.length_replicate]

/-- Where nothing remains there is nothing to round. -/
theorem quotientToEven_of_dvd {a b : ℕ} (hb : 0 < b) (h : b ∣ a) :
    quotientToEven a b = a / b := by
  rw [quotientToEven, Nat.mod_eq_zero_of_dvd h, if_pos (.inl (by omega))]

/-- Halves going up, the closest natural is found by adding a half and cutting. -/
theorem quotientUp_eq {a b : ℕ} (hb : 0 < b) :
    (2 * a + b) / (2 * b) = if 2 * (a % b) < b then a / b else a / b + 1 := by
  have hsplit := Nat.div_add_mod a b
  have hlt := Nat.mod_lt a hb
  have hmul : 2 * b * (a / b) = 2 * (b * (a / b)) := Nat.mul_assoc ..
  split_ifs with h
  · refine Nat.div_eq_of_lt_le ?_ ?_
    · rw [Nat.mul_comm]
      omega
    · rw [Nat.add_mul, Nat.mul_comm (a / b)]
      omega
  · refine Nat.div_eq_of_lt_le ?_ ?_
    · rw [Nat.add_mul, Nat.mul_comm (a / b)]
      omega
    · rw [Nat.add_mul, Nat.add_mul, Nat.mul_comm (a / b)]
      omega

/-- Save at halves, both rules find the same closest natural. -/
theorem quotientToEven_of_ne {a b : ℕ} (hb : 0 < b) (h : 2 * (a % b) ≠ b) :
    quotientToEven a b = (2 * a + b) / (2 * b) := by
  rw [quotientUp_eq hb, quotientToEven]
  refine if_congr ?_ rfl rfl
  exact or_iff_left fun hhalf => h hhalf.1

/-- **So many places write a fraction out in full** whose denominator is a power of two with
no larger exponent. -/
theorem quotientToEven_exact {k places : ℕ} (h : k ≤ places) (a : ℕ) :
    quotientToEven (a * 10 ^ places) (2 ^ k) * 2 ^ k = a * 10 ^ places := by
  have hdvd : 2 ^ k ∣ a * 10 ^ places := by
    have hten : (10 : ℕ) = 2 * 5 := rfl
    rw [hten, Nat.mul_pow]
    exact ((Nat.pow_dvd_pow 2 h).mul_right _).mul_left _
  rw [quotientToEven_of_dvd (by positivity) hdvd, Nat.div_mul_cancel hdvd]

/-- What is written out in full holds what the number holds of the larger unit,
and leaves half of it exactly when the number is halfway between two multiples. -/
theorem div_and_mod_of_exact {a b exact k : ℕ} (hb : 0 < b)
    (h : exact * b = a * 10 ^ (k + 1)) :
    exact / 10 ^ (k + 1) = a / b ∧ (exact % 10 ^ (k + 1) = 5 * 10 ^ k ↔ 2 * (a % b) = b) := by
  have hpos : 0 < 10 ^ k := by positivity
  -- Scaling dividend and divisor alike does not change the quotient.
  have hdiv : exact / 10 ^ (k + 1) = a / b := by
    calc
      exact / 10 ^ (k + 1) = exact * b / (10 ^ (k + 1) * b) :=
        (Nat.mul_div_mul_right _ _ hb).symm
      _ = a * 10 ^ (k + 1) / (b * 10 ^ (k + 1)) := by rw [h, Nat.mul_comm b]
      _ = a / b := Nat.mul_div_mul_right _ _ (by positivity)
  refine ⟨hdiv, ?_⟩
  -- The digits that are cut off are the remainder, scaled by the power of ten.
  have hmod : exact % 10 ^ (k + 1) * b = a % b * 10 ^ (k + 1) := by
    calc
      exact % 10 ^ (k + 1) * b = exact * b % (10 ^ (k + 1) * b) := (Nat.mul_mod_mul_right ..).symm
      _ = a * 10 ^ (k + 1) % (b * 10 ^ (k + 1)) := by rw [h, Nat.mul_comm b]
      _ = a % b * 10 ^ (k + 1) := Nat.mul_mod_mul_right ..
  rw [Nat.pow_succ] at hmod ⊢
  constructor
  · intro hhalf
    rw [hhalf] at hmod
    refine Nat.eq_of_mul_eq_mul_left hpos ?_
    nlinarith
  · intro hhalf
    refine Nat.eq_of_mul_eq_mul_right hb ?_
    calc
      exact % (10 ^ k * 10) * b = 5 * 10 ^ k * (2 * (a % b)) := by
        rw [hmod]
        ring
      _ = 5 * 10 ^ k * b := by rw [hhalf]

/-- The natural closest to a number in units of the last place, as a quotient. -/
theorem floor_scaled_add_half (places m : ℕ) (e : ℤ) :
    ⌊(m : ℚ) * 2 ^ e * 10 ^ places + 1 / 2⌋₊
      = (2 * (m * 2 ^ e.toNat * 10 ^ places) + 2 ^ (-e).toNat) / (2 * 2 ^ (-e).toNat) := by
  have hscale : (2 : ℚ) ^ e = 2 ^ e.toNat / 2 ^ (-e).toNat := by
    rw [← zpow_natCast, ← zpow_natCast, ← zpow_sub₀ two_ne_zero]
    congr 1
    omega
  rw [← Nat.floor_div_eq_div (K := ℚ), hscale]
  congr 1
  push_cast
  field_simp

/-- **Whatever the magnitude, what is printed is the decimal of the closest natural in units
of the last place, halves going up.** -/
theorem isPlaced_fixedMagnitude (places m : ℕ) {e : ℤ} (he : -1074 ≤ e) :
    IsPlaced places ⌊(m : ℚ) * 2 ^ e * 10 ^ places + 1 / 2⌋₊ (fixedMagnitude places m e) := by
  have hunit : 0 < 2 ^ (-e).toNat := by positivity
  obtain ⟨k, hk⟩ : ∃ k, exactPlaces = k + 1 := ⟨1074, rfl⟩
  have hplaces : (-e).toNat ≤ places + (k + 1) := by
    rw [← hk, exactPlaces]
    omega
  -- All digits of the magnitude, and what its text holds before and after the cut.
  have hexact := quotientToEven_exact hplaces (m * 2 ^ e.toNat)
  rw [Nat.pow_add, ← Nat.mul_assoc] at hexact
  obtain ⟨hdiv, hmod⟩ := div_and_mod_of_exact hunit hexact
  obtain ⟨hfront, hrun, htail⟩ := (isPlaced_placed (places + (k + 1))
    (quotientToEven (m * 2 ^ e.toNat * 10 ^ places * 10 ^ (k + 1)) (2 ^ (-e).toNat))).cut
      k.succ_pos
  have hhalf := (isHalf_iff hrun).trans (htail ▸ hmod)
  unfold fixedMagnitude closest
  simp only [hk, Nat.pow_eq, Nat.pow_add _ places, ← Nat.mul_assoc]
  rw [floor_scaled_add_half]
  -- At a half the last place is counted up; otherwise rounding to even did the same.
  split_ifs with h
  · have htie := hhalf.1 h
    rw [quotientUp_eq hunit, if_neg (by omega), ← hdiv]
    exact hfront.increment
  · have hnone := fun htie => h (hhalf.2 htie)
    rw [← quotientToEven_of_ne hunit hnone]
    exact isPlaced_placed _ _

/-- **A finite double is printed as the closest decimal with a set number of places,** exact
halves going away from zero: a minus sign for numbers below zero and for no others, so not
for `-0`, and then the plain decimal of `⌊|x| · 10^places + 1/2⌋ / 10^places`. -/
theorem toFixed_isPlaced {x : Float} (hx : x.isFinite = true) (places : ℕ) :
    ∃ text, toFixed x places = (if x < 0.0 then ['-'] else []) ++ text ∧
      IsPlaced places ⌊|Exact.toRat x| * 10 ^ places + 1 / 2⌋₊ text := by
  have hcanonical := (Exact.canonical_of_isFinite hx).1
  -- Neither zero is below zero, so no sign is written for `-0`.
  have hsign : x < 0.0 ↔ Exact.toRat x < 0 := by
    rw [Exact.lt_iff, Exact.zero_worth.toRat_eq]
    exact ⟨fun h => h.2.2, fun h => ⟨Exact.notNaN_of_isFinite hx, Exact.zero_worth.notNaN, h⟩⟩
  simp only [hsign]
  unfold toFixed Exact.toRat
  generalize x.toModel.unpack = u at hcanonical ⊢
  cases u with
  | zero s =>
    refine ⟨fixedMagnitude places 0 0, by simp, ?_⟩
    simpa using isPlaced_fixedMagnitude places 0 (e := 0) (by norm_num)
  | finite s m e hm =>
    have hpos : (0 : ℚ) < m * 2 ^ e := by positivity
    -- The sign that is written is that of the number, since a finite magnitude is not zero.
    have htext : signText s = if Exact.value (.finite s m e hm) < 0 then ['-'] else [] := by
      rw [Exact.value_finite]
      cases s with
      | negative => rw [Exact.signed, if_pos (neg_neg_of_pos hpos), signText]
      | positive => rw [Exact.signed, if_neg hpos.not_gt, signText]
    refine ⟨fixedMagnitude places m e, by rw [← htext], ?_⟩
    rw [Exact.value_finite, Exact.abs_signed, abs_of_pos hpos]
    exact isPlaced_fixedMagnitude places m hcanonical.2.1
  | infinity s => exact hcanonical.elim
  | notANumber => exact hcanonical.elim

/-- Halfway between two decimals, a negative number goes away from zero. -/
theorem toFixed_isPlaced_eighth :
    (-0.125 : Float).isFinite = true ∧
      ∃ text, toFixed (-0.125) 2 = '-' :: text ∧ IsPlaced 2 13 text := by
  have hfinite : (-0.125 : Float).isFinite = true := by decide
  have hvalue : Exact.toRat (-0.125) = -(1 / 8) := by
    have hunpack : ∃ h, (-0.125 : Float).toModel.unpack = .finite .negative (2 ^ 52) (-55) h :=
      ⟨by decide, rfl⟩
    obtain ⟨_, hunpack⟩ := hunpack
    rw [Exact.toRat, hunpack, Exact.value_finite, Exact.signed]
    norm_num
  have hfloor : ⌊|Exact.toRat (-0.125)| * 10 ^ 2 + 1 / 2⌋₊ = 13 := by
    rw [hvalue]
    norm_num
  obtain ⟨text, htext, hplaced⟩ := toFixed_isPlaced hfinite 2
  have hbelow : (-0.125 : Float) < 0.0 := by decide
  rw [if_pos hbelow] at htext
  exact ⟨hfinite, text, htext, hfloor ▸ hplaced⟩

/-- What only prints like a half, since the double lies below it, goes down. -/
example : toFixed 1.005 2 = ['1', '.', '0', '0'] := by decide +kernel

/-! ### Whole numbers -/

open Exact

/-- Without places a number is printed as its numeral. -/
theorem IsPlaced.eq_decimalDigits {n : ℕ} {text : List Char} (h : IsPlaced 0 n text) :
    text = decimalDigits n := by
  cases h with
  | @intro whole fraction hwhole hfraction hplaces hvalue =>
    obtain rfl := List.eq_nil_of_length_eq_zero hplaces
    rw [List.append_nil] at hvalue
    rw [if_pos rfl, List.append_nil]
    have hdigits : Numeral (decimalDigits n) :=
      ⟨decimalDigits_ne_nil n, fun _ => isDigit_of_mem_decimalDigits, head?_decimalDigits_ne⟩
    exact hwhole.eq_of_natOfDigits_eq hdigits (by rw [hvalue, natOfDigits_decimalDigits])

/-- **A double that is worth a natural is printed without places as that natural.** -/
theorem Exact.Worth.toFixed_zero {x : Float} {n : ℕ} (h : Worth x n) (hx : x.isFinite = true) :
    toFixed x 0 = decimalDigits n := by
  have hcanonical := (canonical_of_isFinite hx).1
  have hvalue := h.toRat_eq
  -- A natural stays as it is, since the floor takes the half away again.
  have hplaced (m : ℕ) {e : ℤ} (he : -1074 ≤ e) (hm : (m : ℚ) * 2 ^ e = n) :
      fixedMagnitude 0 m e = decimalDigits n := by
    have hhalf : ⌊(1 / 2 : ℚ)⌋₊ = 0 := by norm_num
    have htext := isPlaced_fixedMagnitude 0 m he
    rw [hm, pow_zero, mul_one, add_comm, Nat.floor_add_natCast (by norm_num), hhalf,
      Nat.zero_add] at htext
    exact htext.eq_decimalDigits
  unfold toFixed
  unfold toRat at hvalue
  generalize x.toModel.unpack = u at hcanonical hvalue
  cases u with
  | zero s => exact hplaced 0 (by norm_num) (by simpa using hvalue)
  | finite s m e hm =>
    have hpos : (0 : ℚ) < m * 2 ^ e := by positivity
    rw [value_finite] at hvalue
    cases s with
    | negative =>
      rw [signed] at hvalue
      -- A natural is not below zero.
      have hnonneg : (0 : ℚ) ≤ n := n.cast_nonneg
      linarith
    | positive =>
      dsimp only [signText]
      rw [List.nil_append]
      exact hplaced m hcanonical.2.1 hvalue
  | infinity s => exact hcanonical.elim
  | notANumber => exact hcanonical.elim

end GlobeView

/-
# Digits and the numbers they denote

`natOfDigits` reads a run of digits and `paddedDigits` writes one.  A run of
`n` digits denotes a number below `10 ^ n`, and two runs of one length denote
the same number only if they are the same run (`eq_of_natOfDigits_eq`).  What
`paddedDigits` writes is read back (`natOfDigits_paddedDigits`), so a run of
exactly `width` digits is what padding to `width` makes of its number
(`paddedDigits_natOfDigits`).
-/

import GlobeView.Number.Plain
import GlobeView.Number.Reading
import Mathlib.Tactic.Ring

namespace GlobeView

/-- Between `least` and `most` digits and nothing else. -/
structure DigitRun (least most : Nat) (ds : List Char) : Prop where
  isDigit : ∀ c ∈ ds, c.isDigit = true
  least_le : least ≤ ds.length
  le_most : ds.length ≤ most

instance {least most : Nat} {ds : List Char} : Decidable (DigitRun least most ds) :=
  decidable_of_iff (ds.all Char.isDigit = true ∧ least ≤ ds.length ∧ ds.length ≤ most)
    ⟨fun h => ⟨List.all_eq_true.1 h.1, h.2.1, h.2.2⟩,
      fun h => ⟨List.all_eq_true.2 h.isDigit, h.least_le, h.le_most⟩⟩

/-- Runs of at least as many digits are runs of at least fewer. -/
theorem DigitRun.anti {least least' most : Nat} {ds : List Char} (h : DigitRun least most ds)
    (hle : least' ≤ least) : DigitRun least' most ds :=
  ⟨h.isDigit, hle.trans h.least_le, h.le_most⟩

/-- Where the least and the most digits are the same number, there are just as many. -/
theorem DigitRun.length_eq {width : Nat} {ds : List Char} (h : DigitRun width width ds) :
    ds.length = width :=
  Nat.le_antisymm h.le_most h.least_le

/-- A run of digits holds no other character. -/
theorem DigitRun.not_mem {least most : Nat} {ds : List Char} (h : DigitRun least most ds)
    {c : Char} (hc : c.isDigit = false) : c ∉ ds := by
  intro hmem
  simp [h.isDigit c hmem] at hc

/-- The number that one digit denotes is below ten. -/
theorem toNat_sub_lt_of_isDigit {c : Char} (h : c.isDigit = true) :
    c.toNat - '0'.toNat < 10 := by
  have h48 : '0'.toNat = 48 := rfl
  have h57 : '9'.toNat = 57 := rfl
  have hc := Char.isDigit_iff_toNat.1 h
  omega

/-- A digit is determined by the number it denotes. -/
theorem eq_of_toNat_sub_eq {c d : Char} (hc : c.isDigit = true) (hd : d.isDigit = true)
    (h : c.toNat - '0'.toNat = d.toNat - '0'.toNat) : c = d := by
  have h48 : '0'.toNat = 48 := rfl
  have h57 : '9'.toNat = 57 := rfl
  have h₁ := Char.isDigit_iff_toNat.1 hc
  have h₂ := Char.isDigit_iff_toNat.1 hd
  exact Char.toNat_inj.1 (by omega)

/-- The first digit counts the power of ten that the digits behind it leave. -/
theorem natOfDigits_cons (c : Char) (ds : List Char) :
    natOfDigits (c :: ds) = 10 ^ ds.length * (c.toNat - '0'.toNat) + natOfDigits ds := by
  have h := @Nat.ofDigitChars_eq_ofDigitChars_zero ds (c.toNat - '0'.toNat)
  simpa only [natOfDigits, Nat.ofDigitChars, List.foldl_cons, Nat.mul_zero, Nat.zero_add] using h

/-- Digits that are put behind others move them up by as many places. -/
theorem natOfDigits_append (ds es : List Char) :
    natOfDigits (ds ++ es) = natOfDigits ds * 10 ^ es.length + natOfDigits es := by
  have h := @Nat.ofDigitChars_eq_ofDigitChars_zero es (natOfDigits ds)
  rw [Nat.mul_comm]
  simpa only [natOfDigits, Nat.ofDigitChars, List.foldl_append] using h

/-- Zeros alone stand for zero. -/
theorem natOfDigits_replicate_zero (n : Nat) : natOfDigits (List.replicate n '0') = 0 := by
  have h := @Nat.ofDigitChars_replicate_zero 10 0 n
  rwa [Nat.mul_zero] at h

/-- **A run of `n` digits denotes a number below `10 ^ n`.** -/
theorem natOfDigits_lt {ds : List Char} (h : ∀ c ∈ ds, c.isDigit = true) :
    natOfDigits ds < 10 ^ ds.length := by
  induction ds with
  | nil => decide
  | cons c ds ih =>
    have hc := toNat_sub_lt_of_isDigit (h c List.mem_cons_self)
    have hds := ih fun d hd => h d (List.mem_cons_of_mem c hd)
    have hmul : 10 ^ ds.length * (c.toNat - '0'.toNat) ≤ 10 ^ ds.length * 9 :=
      Nat.mul_le_mul_left _ (by omega)
    rw [natOfDigits_cons, List.length_cons, Nat.pow_succ]
    omega

/-- The last digits of a run are what its number leaves, and the others what it holds. -/
theorem natOfDigits_div_mod (ds : List Char) {es : List Char}
    (hes : ∀ c ∈ es, c.isDigit = true) :
    natOfDigits (ds ++ es) / 10 ^ es.length = natOfDigits ds ∧
      natOfDigits (ds ++ es) % 10 ^ es.length = natOfDigits es := by
  have hlt := natOfDigits_lt hes
  have hpos : 0 < 10 ^ es.length := Nat.pow_pos (by omega)
  rw [natOfDigits_append, Nat.add_comm]
  constructor
  · rw [Nat.add_mul_div_right _ _ hpos, Nat.div_eq_of_lt hlt, Nat.zero_add]
  · rw [Nat.add_mul_mod_self_right, Nat.mod_eq_of_lt hlt]

/-- The first of some digits is a zero when their number would fit without it. -/
theorem natOfDigits_cons_lt_iff {c : Char} {ds : List Char}
    (h : ∀ d ∈ c :: ds, d.isDigit = true) :
    natOfDigits (c :: ds) < 10 ^ ds.length ↔ c = '0' := by
  have hlt := natOfDigits_lt fun d hd => h d (List.mem_cons_of_mem c hd)
  rw [natOfDigits_cons]
  constructor
  · intro hsmall
    refine eq_of_toNat_sub_eq (h c List.mem_cons_self) (by decide) ?_
    rw [Nat.sub_self]
    -- Any other digit in front counts at least a whole power of ten.
    by_contra hne
    have := Nat.mul_le_mul_left (10 ^ ds.length) (Nat.one_le_iff_ne_zero.2 hne)
    omega
  · rintro rfl
    rwa [Nat.sub_self, Nat.mul_zero, Nat.zero_add]

/-- **Digits of one length are determined by the number they denote.** -/
theorem eq_of_natOfDigits_eq {ds es : List Char} (hds : ∀ c ∈ ds, c.isDigit = true)
    (hes : ∀ c ∈ es, c.isDigit = true) (hlen : ds.length = es.length)
    (h : natOfDigits ds = natOfDigits es) : ds = es := by
  -- On the digits of both at once, since there are as many.
  induction ds generalizing es with
  | nil => exact (List.eq_nil_of_length_eq_zero hlen.symm).symm
  | cons c ds ih =>
    cases es with
    | nil => simp at hlen
    | cons d es =>
      have hlen' : ds.length = es.length := Nat.succ.inj hlen
      have htail := fun x hx => hds x (List.mem_cons_of_mem c hx)
      have htail' := fun x hx => hes x (List.mem_cons_of_mem d hx)
      have hlt := natOfDigits_lt htail
      have hlt' := natOfDigits_lt htail'
      rw [natOfDigits_cons, natOfDigits_cons, hlen'] at h
      rw [hlen'] at hlt
      -- The first digits are what is left when the power of ten is divided out.
      have hhead : c.toNat - '0'.toNat = d.toNat - '0'.toNat := by
        have h₁ := congrArg (· / 10 ^ es.length) h
        have hpos : 0 < 10 ^ es.length := Nat.pow_pos (by omega)
        simpa only [Nat.mul_add_div hpos, Nat.div_eq_of_lt hlt, Nat.div_eq_of_lt hlt',
          Nat.add_zero] using h₁
      have hc := eq_of_toNat_sub_eq (hds c List.mem_cons_self) (hes d List.mem_cons_self) hhead
      rw [hhead] at h
      rw [hc, ih htail htail' hlen' (by omega)]

/-- A natural is written in digits only. -/
theorem isDigit_of_mem_decimalDigits {n : Nat} {c : Char} (h : c ∈ decimalDigits n) :
    c.isDigit = true :=
  Nat.isDigit_of_mem_toDigits (by omega) (by omega) h

/-- A natural is read back from its digits. -/
theorem natOfDigits_decimalDigits (n : Nat) : natOfDigits (decimalDigits n) = n :=
  Nat.ofDigitChars_ten_toDigits

/-- Every natural has a digit, zero included. -/
theorem decimalDigits_ne_nil (n : Nat) : decimalDigits n ≠ [] :=
  Nat.toDigits_ne_nil

/-- **A number is written without a superfluous zero.** -/
theorem head?_decimalDigits_ne {n : Nat} (h : 1 < (decimalDigits n).length) :
    (decimalDigits n).head? ≠ some '0' := by
  intro hzero
  obtain ⟨ds, hds⟩ := List.head?_eq_some_iff.1 hzero
  rw [hds, List.length_cons] at h
  have hlt : natOfDigits ds < 10 ^ ds.length :=
    natOfDigits_lt fun c hc => isDigit_of_mem_decimalDigits (hds ▸ List.mem_cons_of_mem '0' hc)
  have hn : natOfDigits ds = n := by
    have hvalue := natOfDigits_decimalDigits n
    rwa [hds, natOfDigits_cons, Nat.sub_self, Nat.mul_zero, Nat.zero_add] at hvalue
  -- a number below `10 ^ k` has no more than `k` digits
  have hlen : (decimalDigits n).length ≤ ds.length :=
    (Nat.length_toDigits_le_iff (by omega) (by omega)).2 (hn ▸ hlt)
  rw [hds, List.length_cons] at hlen
  omega

/-- What is padded with zeros is still digits only. -/
theorem isDigit_of_mem_paddedDigits {width n : Nat} {c : Char}
    (h : c ∈ paddedDigits width n) : c.isDigit = true := by
  rw [paddedDigits, List.leftpad, List.mem_append] at h
  rcases h with h | h
  · rw [List.eq_of_mem_replicate h]
    decide
  · exact Nat.isDigit_of_mem_toDigits (by omega) (by omega) h

/-- **What is written with padding denotes the number it was written for.** -/
theorem natOfDigits_paddedDigits (width n : Nat) : natOfDigits (paddedDigits width n) = n := by
  change Nat.ofDigitChars 10 (List.leftpad width '0' (Nat.toDigits 10 n)) 0 = n
  rw [List.leftpad, Nat.ofDigitChars_append, Nat.ofDigitChars_replicate_zero, Nat.mul_zero,
    Nat.ofDigitChars_ten_toDigits]

/-- Padding gives a number that fits exactly the width asked for. -/
theorem length_paddedDigits {width n : Nat} (hwidth : 0 < width) (h : n < 10 ^ width) :
    (paddedDigits width n).length = width := by
  have hlen : (decimalDigits n).length ≤ width :=
    (Nat.length_toDigits_le_iff (by omega) hwidth).2 h
  rw [paddedDigits, List.length_leftpad]
  omega

/-- A number that fits is written with exactly `width` digits. -/
theorem digitRun_paddedDigits {width n : Nat} (hwidth : 0 < width) (h : n < 10 ^ width) :
    DigitRun width width (paddedDigits width n) where
  isDigit _ := isDigit_of_mem_paddedDigits
  least_le := (length_paddedDigits hwidth h).ge
  le_most := (length_paddedDigits hwidth h).le

/-- **Digits of the full width are what their number is written as.** -/
theorem paddedDigits_natOfDigits {width : Nat} {ds : List Char} (hwidth : 0 < width)
    (h : DigitRun width width ds) : paddedDigits width (natOfDigits ds) = ds := by
  have hlen := h.length_eq
  have hlt : natOfDigits ds < 10 ^ width := hlen ▸ natOfDigits_lt h.isDigit
  have hpad := digitRun_paddedDigits hwidth hlt
  exact eq_of_natOfDigits_eq hpad.isDigit h.isDigit
    ((length_paddedDigits hwidth hlt).trans hlen.symm) (natOfDigits_paddedDigits ..)

end GlobeView

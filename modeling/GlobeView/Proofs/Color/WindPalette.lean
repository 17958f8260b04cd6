/-
# Every magnitude has a grey

A palette's channels are `85 + step · k`, as long as they do not exceed 255
(`channels_eq`), so there are at most 171 of them, and greys of different channels
have different styles because no two numbers are written alike.

The index of a magnitude from zero on is the floor of `min(m, max) / max · (size - 1)`,
rounded after the division and after the multiplication.  Rounding keeps the order and
keeps 0, 1 and `size - 1`, so the share stays between the first bucket and the last one,
grows with the magnitude and reaches the last bucket at the maximum (`share_mem`,
`indexFor_mono`, `indexFor_of_ge`).  Below zero the quotient can be an infinity and its
product NaN; both have the floor 0.
-/

import GlobeView.Color.WindPalette
import GlobeView.Proofs.Color.Style
import GlobeView.Proofs.Number.Proportion

namespace GlobeView

open Exact

/-- The opaque grey of a channel. -/
def Rgba.opaqueGrey (c : Channel) : Rgba :=
  ⟨c, c, c, 1.0⟩

namespace WindPalette

/-! ### Styles -/

/-- The channels are those from 85 on that do not exceed 255. -/
theorem channels_eq {step : ℕ} (h : 0 < step) :
    channels step = (List.range (170 / step + 1)).map fun k => 85 + step * k := by
  have hle {k : ℕ} (hk : k < 170 / step + 1) : step * k ≤ 170 := by
    rw [Nat.mul_comm]
    exact (Nat.le_div_iff_mul_le h).1 (by omega)
  have hcount : 170 / step + 1 ≤ 171 := by
    have := Nat.div_le_self 170 step
    omega
  -- The search goes over 171 candidates, of which those above 255 are cut off.
  have hsplit : List.range' 85 171 step = List.range' 85 (170 / step + 1) step ++
      List.range' (85 + step * (170 / step + 1)) (171 - (170 / step + 1)) step := by
    rw [List.range'_append, Nat.add_sub_of_le hcount]
  have hfront : ∀ c ∈ List.range' 85 (170 / step + 1) step, decide (c ≤ 255) = true := by
    intro c hc
    obtain ⟨k, hk, rfl⟩ := List.mem_range'.1 hc
    have := hle hk
    exact decide_eq_true (by omega)
  have hrest : (List.range' (85 + step * (170 / step + 1)) (171 - (170 / step + 1)) step).takeWhile
      (fun c => decide (c ≤ 255)) = [] := by
    -- The first candidate of the rest is above 255 already.
    have hbeyond : 170 < step * (170 / step + 1) := Nat.lt_mul_div_succ 170 h
    cases 171 - (170 / step + 1) with
    | zero => rfl
    | succ n =>
      rw [List.range'_succ]
      exact List.takeWhile_cons_of_neg (by simp; omega)
  change (List.range' 85 171 step).takeWhile (fun c => decide (c ≤ 255)) = _
  rw [hsplit, List.takeWhile_append_of_pos hfront, hrest, List.append_nil]
  refine List.ext_getElem (by simp) fun k hk hk' => ?_
  simp

/-- No channel of a palette is above 255. -/
theorem le_of_mem_channels {step c : ℕ} (h : c ∈ channels step) : c ≤ 255 := by
  have hle : decide (c ≤ lastChannel) = true :=
    List.mem_takeWhile_imp (p := fun c => decide (c ≤ lastChannel)) h
  exact of_decide_eq_true hle

/-- Channels are a positive step apart, so no two are equal. -/
theorem nodup_channels {step : ℕ} (h : 0 < step) : (channels step).Nodup :=
  (List.nodup_range' step h).sublist (List.takeWhile_sublist _)

/-- A grey has the style of the opaque color with that channel three times. -/
theorem grey_eq {c : ℕ} (h : c ≤ 255) : grey c = (Rgba.opaqueGrey (Int32.ofNat c)).toStyle := by
  have hint : (Int32.ofNat c).toInt = c := Int32.toInt_ofNat_of_lt (by omega)
  have hdouble : Channel.toDouble (Int32.ofNat c) = Float.ofNat c := by
    rw [Channel.toDouble, hint]
    rfl
  unfold Rgba.toStyle Rgba.opaqueGrey grey
  dsimp only
  rw [hdouble]

/-- **Distinct greys have distinct styles.** -/
theorem grey_injOn {c d : ℕ} (hc : c < 2 ^ 53) (hd : d < 2 ^ 53) (h : grey c = grey d) : c = d := by
  have hvalue : toRat (Float.ofNat c) = toRat (Float.ofNat d) :=
    congrArg toRat (plain_injective (colorStyle_eq_iff.1 h).1)
  rw [(ofNat_worth hc).toRat_eq, (ofNat_worth hd).toRat_eq] at hvalue
  exact_mod_cast hvalue

/-! ### Buckets -/

/-- What a palette that was built is known to be. -/
structure Sound (p : WindPalette) : Prop where
  finite : p.maximum.isFinite = true
  pos : 0 < toRat p.maximum
  size_pos : 0 < p.size
  size_le : p.size ≤ 171

/-- A part of the maximum, as a fraction of it. -/
def fraction (p : WindPalette) (q : ℚ) : ℚ :=
  rounded (min q (toRat p.maximum) / toRat p.maximum)

/-- The share of the maximum, in buckets. -/
def share (p : WindPalette) (magnitude : Float) : Float :=
  minimum magnitude p.maximum / p.maximum * Float.ofNat (p.size - 1)

/-- A magnitude that is NaN has the first grey. -/
theorem indexFor_of_isNaN (p : WindPalette) {m : Float} (hm : m.isNaN = true) :
    p.indexFor m = 0 :=
  if_pos hm

/-- The index of a number is the floor of its share of the palette, held inside 64 bits. -/
theorem indexFor_of_notNaN (p : WindPalette) {m : Float} (hm : m.isNaN = false) :
    p.indexFor m = (floorWithin 0 18446744073709551615 (p.share m)).toNat :=
  if_neg (Bool.eq_false_iff.1 hm)

/-- Every index of 64 bits is below the limit of doubles. -/
theorem index_le_limit : ((18446744073709551615 : ℤ) : ℚ) ≤ limit := by
  have hpow : (2 : ℚ) ^ 64 ≤ limit := by
    unfold limit
    exact pow_le_pow_right₀ one_le_two (by norm_num)
  refine le_trans ?_ hpow
  norm_num

namespace Sound

variable {p : WindPalette} (h : p.Sound) {m m' : Float}

include h

/-- A palette has far fewer greys than doubles can count. -/
theorem last_lt : p.size - 1 < 2 ^ 53 := by
  have := h.size_le
  omega

/-- The index of the last grey is converted exactly. -/
theorem last_worth : Worth (Float.ofNat (p.size - 1)) ((p.size - 1 : ℕ) : ℚ) :=
  ofNat_worth h.last_lt

/-- The index of the last grey has less than 53 bits. -/
theorem abs_last_lt : |((p.size - 1 : ℕ) : ℤ)| < 2 ^ 53 := by
  rw [Nat.abs_cast]
  exact_mod_cast h.last_lt

/-- The index of the last grey is a finite double. -/
theorem finite_last : (Float.ofNat (p.size - 1)).isFinite = true :=
  h.last_worth.isFinite (by simpa using (rounded_intCast h.abs_last_lt).2)

/-- The last bucket is a double. -/
theorem rounded_last : rounded ((p.size - 1 : ℕ) : ℚ) = ((p.size - 1 : ℕ) : ℚ) := by
  simpa using (rounded_intCast h.abs_last_lt).1

/-- The fraction of the maximum is held inside `[0, 1]`. -/
theorem fraction_mem {q : ℚ} (h0 : 0 ≤ q) : 0 ≤ p.fraction q ∧ p.fraction q ≤ 1 := by
  refine rounded_mem rounded_zero rounded_one (div_nonneg (le_min h0 h.pos.le) h.pos.le) ?_
  exact (div_le_one h.pos).2 (min_le_right _ _)

/-- A greater magnitude is no smaller fraction of the maximum. -/
theorem fraction_mono {q q' : ℚ} (hle : q ≤ q') : p.fraction q ≤ p.fraction q' :=
  rounded_mono (div_le_div_of_nonneg_right (min_le_min_right _ hle) h.pos.le)

/-- From the maximum on the fraction is 1. -/
theorem fraction_of_le {q : ℚ} (hle : toRat p.maximum ≤ q) : p.fraction q = 1 := by
  rw [fraction, min_eq_right hle, div_self h.pos.ne', rounded_one]

/-- The share of a magnitude from zero on, rounded where the formula rounds. -/
theorem share_worth (hm : m.isNaN = false) (h0 : 0 ≤ toRat m) :
    Worth (p.share m) (rounded (p.fraction (toRat m) * ((p.size - 1 : ℕ) : ℚ))) := by
  -- Each of the three operations is on finite doubles, so each is the rounded one.
  have hmin := minimum_worth hm (notNaN_of_isFinite h.finite)
  have hlt := (isFinite_iff.1 h.finite).2
  rw [abs_of_pos h.pos] at hlt
  have hfinite := hmin.isFinite (by
    rw [abs_of_nonneg (le_min h0 h.pos.le)]
    exact (min_le_right _ _).trans_lt hlt)
  have hdiv := div_worth hfinite h.finite h.pos.ne'
  rw [hmin.toRat_eq] at hdiv
  obtain ⟨hnonneg, hle⟩ := h.fraction_mem h0
  have hmul := mul_worth (hdiv.isFinite (by
    rw [← fraction, abs_of_nonneg hnonneg]
    exact hle.trans_lt one_lt_limit)) h.finite_last
  rwa [hdiv.toRat_eq, h.last_worth.toRat_eq] at hmul

/-- The rounded share is still a number of buckets. -/
theorem share_mem (hm : m.isNaN = false) (h0 : 0 ≤ toRat m) :
    0 ≤ toRat (p.share m) ∧ toRat (p.share m) ≤ ((p.size - 1 : ℕ) : ℚ) := by
  obtain ⟨hnonneg, hle⟩ := h.fraction_mem h0
  rw [(h.share_worth hm h0).toRat_eq]
  refine rounded_mem rounded_zero h.rounded_last (by positivity) ?_
  exact mul_le_of_le_one_left (Nat.cast_nonneg _) hle

/-- **From zero on, the index is the floor of the share.** -/
theorem indexFor_eq_floor (hm : m.isNaN = false) (h0 : 0 ≤ toRat m) :
    p.indexFor m = ⌊toRat (p.share m)⌋₊ := by
  obtain ⟨hnonneg, hle⟩ := h.share_mem hm h0
  have hfloor : ⌊toRat (p.share m)⌋₊ ≤ p.size - 1 := Nat.floor_le_of_le hle
  have hint : ⌊toRat (p.share m)⌋ = (⌊toRat (p.share m)⌋₊ : ℤ) :=
    (Int.natCast_floor_eq_floor hnonneg).symm
  have hsize := h.size_le
  rw [p.indexFor_of_notNaN hm, floorWithin_eq (by simpa using limit_pos.le) (by norm_num)
    index_le_limit (h.share_worth hm h0).notNaN, hint]
  unfold within
  omega

/-- NaN and what is not above zero falls into the first bucket. -/
theorem indexFor_of_notAbove (hm : NotAbove m) : p.indexFor m = 0 := by
  cases hnum : m.isNaN with
  | true => exact p.indexFor_of_isNaN hnum
  | false =>
    -- Neither the maximum nor the palette is negative, so the sign stays as it is.
    have hmin : NotAbove (minimum m p.maximum) := by
      intro _
      rw [(minimum_worth hnum (notNaN_of_isFinite h.finite)).toRat_eq]
      exact (min_le_left _ _).trans (hm hnum)
    have hlast : 0 ≤ toRat (Float.ofNat (p.size - 1)) := by
      rw [h.last_worth.toRat_eq]
      exact Nat.cast_nonneg _
    have hshare : NotAbove (p.share m) := (hmin.div h.finite h.pos).mul h.finite_last hlast
    rw [p.indexFor_of_notNaN hnum, hshare.floorWithin_eq_zero (by norm_num) index_le_limit]
    rfl

/-- **Whatever the magnitude, its index is one of a bucket.** -/
theorem indexFor_lt (m : Float) : p.indexFor m < p.size := by
  have hsize := h.size_pos
  rcases notAbove_or_nonneg m with hm | ⟨hm, h0⟩
  · rw [h.indexFor_of_notAbove hm]
    exact hsize
  · have hfloor : ⌊toRat (p.share m)⌋₊ ≤ p.size - 1 := Nat.floor_le_of_le (h.share_mem hm h0).2
    rw [h.indexFor_eq_floor hm h0]
    omega

/-- From the maximum on, magnitudes fall into the last bucket. -/
theorem indexFor_of_ge (hm : m.isNaN = false) (hge : toRat p.maximum ≤ toRat m) :
    p.indexFor m = p.size - 1 := by
  have h0 : 0 ≤ toRat m := h.pos.le.trans hge
  rw [h.indexFor_eq_floor hm h0, (h.share_worth hm h0).toRat_eq, h.fraction_of_le hge, one_mul,
    h.rounded_last, Nat.floor_natCast]

/-- **Magnitudes in order have indices in order.** -/
theorem indexFor_mono (hm : m.isNaN = false) (hm' : m'.isNaN = false) (hle : toRat m ≤ toRat m') :
    p.indexFor m ≤ p.indexFor m' := by
  rcases le_or_gt (toRat m) 0 with hneg | hpos
  · rw [h.indexFor_of_notAbove fun _ => hneg]
    exact Nat.zero_le _
  · have hpos' := hpos.le.trans hle
    rw [h.indexFor_eq_floor hm hpos.le, h.indexFor_eq_floor hm' hpos',
      (h.share_worth hm hpos.le).toRat_eq, (h.share_worth hm' hpos').toRat_eq]
    refine Nat.floor_mono (rounded_mono ?_)
    exact mul_le_mul_of_nonneg_right (h.fraction_mono hle) (Nat.cast_nonneg _)

end Sound

/-! ### Palettes that are built -/

/-- **A palette is built for every positive step and every finite positive maximum,** and for no
others. -/
theorem build_eq_ok_iff {step : ℕ} {maximum : Float} {p : WindPalette} :
    build step maximum = .ok p ↔
      (0 < step ∧ maximum.isFinite = true ∧ 0.0 < maximum) ∧
        p = ⟨(channels step).map grey, maximum⟩ := by
  -- Of a finite maximum, being positive is the negation of the check.
  have hpositive (hfinite : maximum.isFinite = true) : ¬maximum ≤ 0.0 ↔ 0.0 < maximum := by
    rw [le_iff, lt_iff, zero_worth.toRat_eq]
    simp only [notNaN_of_isFinite hfinite, zero_worth.notNaN, true_and, not_le]
  unfold build
  split_ifs with hstep hmaximum
  · simp [hstep]
  · rw [Bool.or_eq_true, Bool.not_eq_true', decide_eq_true_eq] at hmaximum
    refine iff_of_false (by simp) ?_
    rintro ⟨⟨-, hfinite, hpos⟩, -⟩
    rcases hmaximum with h | h
    · rw [hfinite] at h
      cases h
    · exact (hpositive hfinite).2 hpos h
  · rw [Bool.or_eq_true, Bool.not_eq_true', decide_eq_true_eq, not_or,
      Bool.not_eq_false] at hmaximum
    rw [and_iff_right ⟨Nat.pos_of_ne_zero hstep, hmaximum.1,
      (hpositive hmaximum.1).1 hmaximum.2⟩]
    exact ⟨fun h => (Except.ok.inj h).symm, fun h => h ▸ rfl⟩

section

variable {step : ℕ} {maximum : Float} {p : WindPalette} (h : build step maximum = .ok p)

include h

/-- From 85 up to 255 there are `170 / step` steps, and one grey more than steps. -/
theorem size_of_build : p.size = 170 / step + 1 := by
  obtain ⟨⟨hstep, -, -⟩, rfl⟩ := build_eq_ok_iff.1 h
  rw [size, channels_eq hstep, List.length_map, List.length_map, List.length_range]

/-- A palette that was built has 1 to 171 greys and a finite positive maximum. -/
theorem sound_of_build : p.Sound := by
  have hsize := size_of_build h
  have hle := Nat.div_le_self 170 step
  obtain ⟨⟨-, hfinite, hpos⟩, rfl⟩ := build_eq_ok_iff.1 h
  have hlt := (lt_iff.1 hpos).2.2
  rw [zero_worth.toRat_eq] at hlt
  refine ⟨hfinite, hlt, ?_, ?_⟩
  · rw [hsize]
    exact Nat.succ_pos _
  · rw [hsize]
    exact Nat.succ_le_succ hle

/-- The styles are those of opaque greys, from channel 85 on. -/
theorem styles_of_build :
    p.styles = (List.range (170 / step + 1)).map fun k =>
      (Rgba.opaqueGrey (Int32.ofNat (85 + step * k))).toStyle := by
  obtain ⟨⟨hstep, -, -⟩, rfl⟩ := build_eq_ok_iff.1 h
  calc
    (channels step).map grey
        = (channels step).map fun c => (Rgba.opaqueGrey (Int32.ofNat c)).toStyle :=
      List.map_congr_left fun c hc => grey_eq (le_of_mem_channels hc)
    _ = _ := by rw [channels_eq hstep, List.map_map, Function.comp_def]

/-- **The styles are distinct.** -/
theorem nodup_of_build : p.styles.Nodup := by
  obtain ⟨⟨hstep, -, -⟩, rfl⟩ := build_eq_ok_iff.1 h
  refine (nodup_channels hstep).map_on fun c hc d hd heq => ?_
  have hc := le_of_mem_channels hc
  have hd := le_of_mem_channels hd
  exact grey_injOn (by omega) (by omega) heq

end

/-- What a palette with a given distance between channels and a given maximum offers. -/
structure Grades (step : ℕ) (maximum : Float) (p : WindPalette) : Prop where
  /-- The styles are those of the opaque greys `85 + step · k` up to 255. -/
  styles_eq : p.styles = (List.range (170 / step + 1)).map fun k =>
    (Rgba.opaqueGrey (Int32.ofNat (85 + step * k))).toStyle
  ne_nil : p.styles ≠ []
  nodup : p.styles.Nodup
  /-- Every magnitude whatsoever has an index within the palette, and so a style. -/
  index_lt : ∀ m, p.indexFor m < p.size
  style : ∀ m, ∃ style ∈ p.styles, p.styleFor m = some style
  mono : ∀ m m', m ≤ m' → p.indexFor m ≤ p.indexFor m'
  first : ∀ m, m.isNaN = true ∨ m ≤ 0.0 → p.indexFor m = 0
  last : ∀ m, maximum ≤ m → p.indexFor m = p.size - 1

/-- **The greys of a palette that was built are graded,** part by part. -/
theorem grades_of_build {step : ℕ} {maximum : Float} {p : WindPalette}
    (h : build step maximum = .ok p) : p.Grades step maximum where
  styles_eq := styles_of_build h
  ne_nil := List.ne_nil_of_length_pos (sound_of_build h).size_pos
  nodup := nodup_of_build h
  index_lt := (sound_of_build h).indexFor_lt
  style m := by
    have hlt := (sound_of_build h).indexFor_lt m
    exact ⟨_, List.getElem_mem hlt, List.getElem?_eq_getElem hlt⟩
  mono m m' hle := by
    obtain ⟨hm, hm', hle⟩ := le_iff.1 hle
    exact (sound_of_build h).indexFor_mono hm hm' hle
  first m hm := by
    refine (sound_of_build h).indexFor_of_notAbove (hm.elim notAbove_of_isNaN fun hle _ => ?_)
    have hvalue := (le_iff.1 hle).2.2
    rwa [zero_worth.toRat_eq] at hvalue
  last m hge := by
    have hsound := sound_of_build h
    obtain ⟨-, rfl⟩ := build_eq_ok_iff.1 h
    obtain ⟨-, hm, hge⟩ := le_iff.1 hge
    exact hsound.indexFor_of_ge hm hge

/-- **A palette can be built exactly for a positive distance between channels and a finite
positive maximum,** and then grades every magnitude. -/
theorem build_grades (step : ℕ) (maximum : Float) :
    ((∃ p, build step maximum = .ok p) ↔
        0 < step ∧ maximum.isFinite = true ∧ 0.0 < maximum) ∧
      ∀ p, build step maximum = .ok p → p.Grades step maximum := by
  refine ⟨⟨?_, ?_⟩, fun p h => grades_of_build h⟩
  · rintro ⟨p, h⟩
    exact (build_eq_ok_iff.1 h).1
  · intro h
    exact ⟨_, build_eq_ok_iff.2 ⟨h, rfl⟩⟩

/-- Two greys: above the maximum the brighter one, below zero the darker one. -/
theorem build_grades_two :
    ∃ p, build 170 10.0 = .ok p ∧ p.styles.length = 2 ∧ p.indexFor 250.0 = 1 ∧
      p.indexFor (-3.0) = 0 ∧ p.styleFor 250.0 = p.styles[1]? := by
  obtain ⟨hbuild, hgrades⟩ := build_grades 170 10.0
  have hfinite : (10.0 : Float).isFinite = true := by decide
  have hpos : (0.0 : Float) < 10.0 := by decide
  obtain ⟨p, hp⟩ := hbuild.2 ⟨by decide, hfinite, hpos⟩
  have hp' := hgrades p hp
  have hlength : p.styles.length = 2 := by
    rw [hp'.styles_eq, List.length_map, List.length_range]
  have hindex : p.indexFor 250.0 = 1 := by
    rw [hp'.last 250.0 (by decide), size, hlength]
  refine ⟨p, hp, hlength, hindex, hp'.first (-3.0) (.inr (by decide)), ?_⟩
  rw [styleFor, hindex]

end WindPalette
end GlobeView

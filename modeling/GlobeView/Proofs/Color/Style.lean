/-
# Style texts

A style text holds four numbers in plain notation between separators.  No comma stands
in a number, so a text can be cut at its commas into the four numbers in one way only
(`colorStyle_eq_iff`).

Channels are doubles when they are written, which loses nothing, and no two doubles are
written alike.  So the style of a color tells the color (`Rgba.toStyle_eq_iff`).
-/

import GlobeView.Proofs.Color.Ramp
import GlobeView.Proofs.Number.Plain

namespace GlobeView

open Exact

/-- A number in decimal places holds no comma, so the next comma ends it. -/
theorem IsPlaced.ne_comma {places n : ℕ} {text : List Char} (h : IsPlaced places n text) :
    ∀ c ∈ text, (c != ',') = true := by
  have hdigit {c : Char} (hc : c.isDigit = true) : (c != ',') = true := by
    rw [bne_iff_ne]
    rintro rfl
    cases hc
  -- There are digits on both sides of the point, if there is one.
  cases h with
  | @intro whole fraction hwhole hfraction hplaces hvalue =>
    intro c hc
    rcases List.mem_append.1 hc with hc | hc
    · exact hdigit (hwhole.isDigit c hc)
    · split_ifs at hc
      · cases hc
      · rcases List.mem_cons.1 hc with rfl | hc
        · rfl
        · exact hdigit (hfraction c hc)

/-- No comma stands in a number. -/
theorem plain_ne_comma (x : Float) : ∀ c ∈ plain x, (c != ',') = true := by
  have hsign (s : Float.Model.UnpackedFloat.Sign) : ∀ c ∈ signText s, (c != ',') = true := by
    cases s <;> simp [signText]
  rw [plain_eq]
  refine List.forall_mem_append.2 ⟨hsign _, ?_⟩
  -- A word is written for NaN and for an infinity, and decimal places for the rest.
  rcases isNaN_or_infinity_or_canonical x with h | ⟨s, h⟩ | h
  · rw [h]
    change ∀ c ∈ ['N', 'a', 'N'], (c != ',') = true
    simp
  · rw [h]
    change ∀ c ∈ ['i', 'n', 'f'], (c != ',') = true
    simp
  · obtain ⟨places, n, hplaced, -⟩ := h.isPlaced
    exact hplaced.ne_comma

/-- A number is found in front of a separator. -/
theorem plain_append_cancel {x y : Float} {rest rest' : List Char}
    (h : plain x ++ ',' :: ' ' :: rest = plain y ++ ',' :: ' ' :: rest') :
    plain x = plain y ∧ rest = rest' := by
  obtain ⟨hplain, hrest⟩ := run_append_cancel (plain_ne_comma x) (plain_ne_comma y)
    (notInFront_cons.2 rfl) (notInFront_cons.2 rfl) h
  exact ⟨hplain, by simpa using hrest⟩

/-- **Style texts are equal only if their numbers are written alike.** -/
theorem colorStyle_eq_iff {r g b a r' g' b' a' : Float} :
    colorStyle r g b a = colorStyle r' g' b' a' ↔
      plain r = plain r' ∧ plain g = plain g' ∧ plain b = plain b' ∧ plain a = plain a' := by
  constructor
  · intro h
    have htext := String.ofList_injective h
    simp only [List.append_assoc, List.cons_append, List.nil_append, List.cons.injEq,
      true_and] at htext
    -- Each number ends at the comma behind it, so they are told apart from the left.
    obtain ⟨hr, htext⟩ := plain_append_cancel htext
    obtain ⟨hg, htext⟩ := plain_append_cancel htext
    obtain ⟨hb, htext⟩ := plain_append_cancel htext
    exact ⟨hr, hg, hb, List.append_cancel_right htext⟩
  · rintro ⟨hr, hg, hb, ha⟩
    unfold colorStyle
    rw [hr, hg, hb, ha]

/-! ### Styles of colors -/

/-- Both are NaN, or they have the same bits, so that the zeros are told apart. -/
def SameDouble (x y : Float) : Prop :=
  (x.isNaN = true ∧ y.isNaN = true) ∨ x.toBits = y.toBits

/-- Doubles that are the same, NaN and the sign of zero included, are equal. -/
theorem sameDouble_iff_eq {x y : Float} : SameDouble x y ↔ x = y := by
  constructor
  · rintro (⟨hx, hy⟩ | hbits)
    · exact eq_of_unpack_eq (by rw [isNaN_iff.1 hx, isNaN_iff.1 hy])
    · obtain ⟨⟨bits, hvalid⟩⟩ := x
      obtain ⟨⟨bits', hvalid'⟩⟩ := y
      obtain rfl : bits = bits' := hbits
      rfl
  · rintro rfl
    exact .inr rfl

/-- **A channel is a double exactly,** whatever its sign and size. -/
theorem Channel.toDouble_injective : Function.Injective Channel.toDouble := by
  intro c d h
  exact Int32.toInt_inj.1 (ofInt_inj c.abs_toInt_lt d.abs_toInt_lt h)

/-- **Styles are equal only if the colors are:** the same channels, in the gamut or not, and the
same alpha. -/
theorem Rgba.toStyle_eq_iff {c d : Rgba} :
    c.toStyle = d.toStyle ↔
      c.red = d.red ∧ c.green = d.green ∧ c.blue = d.blue ∧ SameDouble c.alpha d.alpha := by
  unfold Rgba.toStyle
  rw [colorStyle_eq_iff, plain_injective.eq_iff, plain_injective.eq_iff, plain_injective.eq_iff,
    plain_injective.eq_iff, Channel.toDouble_injective.eq_iff, Channel.toDouble_injective.eq_iff,
    Channel.toDouble_injective.eq_iff, sameDouble_iff_eq]

example : (⟨-2147483648, 0, 300, -0.0⟩ : Rgba).toStyle = "rgba(-2147483648, 0, 300, -0)" := by
  decide +kernel

end GlobeView

/-
# Counting up the last place

`incrementLastDigit` reads a decimal from its end:

| character | becomes | what stands before it |
| --- | --- | --- |
| a point | a point | is read on |
| a nine | `0` | is read on |
| any other digit | the next digit | is left alone |
| none is left | a leading `1` | |

So the points stay where they are, counted from the end, and one digit is added in front
exactly when nines alone were read (`pointPattern_carry`).  From this follow the length, the
point and the places behind it.  That the number grows by one is the same induction
(`unscaled_carry`): a nine that turns over is worth ten less one, and owes one to what
stands before it.
-/

import GlobeView.Proofs.Number.Fixed

namespace GlobeView

/-! ### Digits with a point -/

/-- Digits, at least one, with at most one point before, among or after them. -/
structure Pointed (text : List Char) : Prop where
  isDigit_or_point : ∀ c ∈ text, c.isDigit = true ∨ c = '.'
  exists_digit : ∃ c ∈ text, c.isDigit = true
  count_point : text.count '.' ≤ 1

/-- The text without its points. -/
def digitsOf (text : List Char) : List Char :=
  text.filter (· != '.')

/-- The number that is read when points are passed over. -/
def unscaled (text : List Char) : ℕ :=
  natOfDigits (digitsOf text)

/-- What stands behind the first point. -/
def afterPoint (text : List Char) : List Char :=
  (text.dropWhile (· != '.')).tail

/-- Every digit is a nine. -/
def AllNines (text : List Char) : Prop :=
  ∀ c ∈ digitsOf text, c = '9'

instance {text : List Char} : Decidable (AllNines text) :=
  List.decidableBAll (· = '9') (digitsOf text)

/-- A point is no digit. -/
theorem digitsOf_point (text : List Char) : digitsOf ('.' :: text) = digitsOf text :=
  rfl

/-- What is no point is a digit. -/
theorem digitsOf_cons {c : Char} (hc : c ≠ '.') (text : List Char) :
    digitsOf (c :: text) = c :: digitsOf text :=
  List.filter_cons_of_pos (bne_iff_ne.2 hc)

/-- The digits of the reversed text are those of the text, reversed. -/
theorem digitsOf_reverse (text : List Char) :
    digitsOf text.reverse = (digitsOf text).reverse :=
  List.filter_reverse ..

/-- No digit is a point. -/
theorem ne_point_of_isDigit {c : Char} (hc : c.isDigit = true) : c ≠ '.' := by
  rintro rfl
  exact absurd hc (by decide)

/-- A digit in front of a text that is read from its end is the next unit of its number. -/
theorem unscaled_reverse_cons {c : Char} (hc : c ≠ '.') (text : List Char) :
    unscaled (c :: text).reverse
      = unscaled text.reverse * 10 + (c.toNat - '0'.toNat) := by
  rw [unscaled, digitsOf_reverse, digitsOf_cons hc, List.reverse_cons,
    natOfDigits_append, ← digitsOf_reverse, ← unscaled, natOfDigits_cons]
  simp [natOfDigits]

/-! ### Where the points stand -/

/-- Of every character whether it is a point. -/
def pointPattern (text : List Char) : List Bool :=
  text.map (· == '.')

/-- The points of the reversed text stand where those of the text do, from the end. -/
theorem pointPattern_reverse (text : List Char) :
    pointPattern text.reverse = (pointPattern text).reverse :=
  List.map_reverse

/-- The pattern has one entry for every character. -/
theorem length_pointPattern (text : List Char) : (pointPattern text).length = text.length :=
  List.length_map _

/-- The pattern tells whether there is a point. -/
theorem point_mem_iff (text : List Char) : '.' ∈ text ↔ true ∈ pointPattern text := by
  simp [pointPattern]

/-- The pattern tells how many points there are. -/
theorem count_point_eq (text : List Char) : text.count '.' = (pointPattern text).count true := by
  rw [pointPattern, List.count_eq_countP, List.count_eq_countP, List.countP_map]
  congr 1
  funext c
  simp

/-- The pattern tells how many places stand behind the first point. -/
theorem length_afterPoint (text : List Char) :
    (afterPoint text).length = ((pointPattern text).dropWhile (! ·)).tail.length := by
  rw [pointPattern, List.dropWhile_map, List.length_tail, List.length_map, afterPoint,
    List.length_tail]
  rfl

/-! ### Counting up from the end -/

/-- **Counting up leaves the points where they are,** and adds a digit at the end exactly when it
read nines alone. -/
theorem pointPattern_carry {text : List Char} (h : ∀ c ∈ text, c.isDigit = true ∨ c = '.') :
    pointPattern (carry text) = pointPattern text ++ if AllNines text then [false] else [] := by
  -- On the text, from the end at which the carry begins.
  induction text with
  | nil => rfl
  | cons c rest ih =>
    have ih := ih fun d hd => h d (List.mem_cons_of_mem c hd)
    by_cases hpoint : c = '.'
    · subst hpoint
      rw [carry, if_pos rfl]
      exact congrArg (true :: ·) ih
    · have hc := (h c List.mem_cons_self).resolve_right hpoint
      rw [carry, if_neg hpoint]
      -- The carry goes on behind a nine, so what follows decides whether all are nines.
      by_cases hnine : c = '9'
      · subst hnine
        have hall : AllNines ('9' :: rest) ↔ AllNines rest := by
          rw [AllNines, digitsOf_cons hpoint, List.forall_mem_cons, AllNines,
            and_iff_right rfl]
        rw [if_pos rfl, if_congr hall rfl rfl]
        exact congrArg (false :: ·) ih
      · have hall : ¬ AllNines (c :: rest) := by
          rw [AllNines, digitsOf_cons hpoint, List.forall_mem_cons]
          exact fun hall => hnine hall.1
        have hnext := ne_point_of_isDigit (nextDigit_spec hc hnine).1
        rw [if_neg hnine, if_neg hall, List.append_nil]
        simp [pointPattern, hpoint, hnext]

/-- Digits and points are counted up to digits and points. -/
theorem isDigit_or_point_of_mem_carry {text : List Char}
    (h : ∀ c ∈ text, c.isDigit = true ∨ c = '.') :
    ∀ c ∈ carry text, c.isDigit = true ∨ c = '.' := by
  induction text with
  | nil => exact List.forall_mem_singleton.2 (.inl rfl)
  | cons c rest ih =>
    obtain ⟨hc, hrest⟩ := List.forall_mem_cons.1 h
    rw [carry]
    -- A point, a nine that becomes a zero, or a digit that becomes the next one.
    split_ifs with hpoint hnine
    · exact List.forall_mem_cons.2 ⟨.inr rfl, ih hrest⟩
    · exact List.forall_mem_cons.2 ⟨.inl rfl, ih hrest⟩
    · exact List.forall_mem_cons.2
        ⟨.inl (nextDigit_spec (hc.resolve_right hpoint) hnine).1, hrest⟩

/-- Nines alone leave a one at the end. -/
theorem exists_carry_of_allNines {text : List Char} (h : AllNines text) :
    ∃ rest, carry text = rest ++ ['1'] := by
  induction text with
  | nil => exact ⟨[], rfl⟩
  | cons c rest ih =>
    by_cases hpoint : c = '.'
    · subst hpoint
      obtain ⟨rest', hrest⟩ := ih h
      exact ⟨'.' :: rest', by rw [carry, if_pos rfl, hrest, List.cons_append]⟩
    · rw [AllNines, digitsOf_cons hpoint, List.forall_mem_cons] at h
      obtain ⟨rfl, hall⟩ := h
      obtain ⟨rest', hrest⟩ := ih hall
      exact ⟨'0' :: rest', by rw [carry, if_neg hpoint, if_pos rfl, hrest, List.cons_append]⟩

/-- **Counting up adds one to the number.** -/
theorem unscaled_carry {text : List Char} (h : ∀ c ∈ text, c.isDigit = true ∨ c = '.') :
    unscaled (carry text).reverse = unscaled text.reverse + 1 := by
  induction text with
  | nil => rfl
  | cons c rest ih =>
    have ih := ih fun d hd => h d (List.mem_cons_of_mem c hd)
    -- A point counts nothing, wherever it stands.
    have hpass (text : List Char) :
        unscaled ('.' :: text).reverse = unscaled text.reverse := by
      rw [unscaled, digitsOf_reverse, digitsOf_point, ← digitsOf_reverse,
        unscaled]
    have h0 : '0'.toNat - '0'.toNat = 0 := rfl
    have h9 : '9'.toNat - '0'.toNat = 9 := rfl
    rw [carry]
    -- A point is passed over, a nine is turned into ten, and any other digit ends the carry.
    split_ifs with hpoint hnine
    · rw [hpoint, hpass, hpass, ih]
    · rw [hnine, unscaled_reverse_cons (by decide), unscaled_reverse_cons (by decide),
        ih, h0, h9]
      omega
    · have hc := (h c List.mem_cons_self).resolve_right hpoint
      obtain ⟨hdigit, hnext⟩ := nextDigit_spec hc hnine
      rw [unscaled_reverse_cons (ne_point_of_isDigit hdigit),
        unscaled_reverse_cons hpoint, hnext]
      omega

/-! ### Counting up a decimal -/

/-- The digits are all nines from either end. -/
theorem allNines_reverse (text : List Char) : AllNines text.reverse ↔ AllNines text := by
  simp only [AllNines, digitsOf_reverse, List.mem_reverse]

section

variable {text : List Char} (h : ∀ c ∈ text, c.isDigit = true ∨ c = '.')

include h

/-- Reversing the text brings no other characters in. -/
theorem isDigit_or_point_of_mem_reverse : ∀ c ∈ text.reverse, c.isDigit = true ∨ c = '.' :=
  fun c hc => h c (List.mem_reverse.1 hc)

/-- The points stay where they were, behind the 1 that all nines are carried to. -/
theorem pointPattern_incrementLastDigit :
    pointPattern (incrementLastDigit text)
      = (if AllNines text then [false] else []) ++ pointPattern text := by
  have hcarry := pointPattern_carry (isDigit_or_point_of_mem_reverse h)
  rw [incrementLastDigit, pointPattern_reverse, hcarry, List.reverse_append,
    ← pointPattern_reverse, List.reverse_reverse, if_congr (allNines_reverse text) rfl rfl]
  split_ifs <;> rfl

/-- The digits, with the points passed over, stand for one more than before. -/
theorem unscaled_incrementLastDigit :
    unscaled (incrementLastDigit text) = unscaled text + 1 := by
  have hcarry := unscaled_carry (isDigit_or_point_of_mem_reverse h)
  rwa [List.reverse_reverse] at hcarry

end

/-- A digit is counted up to a digit, so there is one. -/
theorem exists_digit_of_pattern {text text' : List Char}
    (h : ∀ c ∈ text', c.isDigit = true ∨ c = '.') (hexists : ∃ c ∈ text, c.isDigit = true)
    (hpattern : ∃ front, pointPattern text' = front ++ pointPattern text) :
    ∃ c ∈ text', c.isDigit = true := by
  obtain ⟨front, hfront⟩ := hpattern
  obtain ⟨c, hc, hdigit⟩ := hexists
  -- A character that is no point has its place in both patterns.
  have hfalse : false ∈ pointPattern text' := by
    rw [hfront, pointPattern]
    exact List.mem_append_right _
      (List.mem_map.2 ⟨c, hc, beq_eq_false_iff_ne.2 (ne_point_of_isDigit hdigit)⟩)
  obtain ⟨d, hd, hne⟩ := List.mem_map.1 hfalse
  exact ⟨d, hd, (h d hd).resolve_right (beq_eq_false_iff_ne.1 hne)⟩

/-- **Counting up the last place of digits with a point gives such digits again,** and their
number without the point grows by one.  There is a point if there was one, with as many places
behind it.  The length stays as it is, save that nines alone are followed by a text with a
leading one that is longer by one. -/
theorem incrementLastDigit_pointed {text : List Char} (h : Pointed text) :
    Pointed (incrementLastDigit text) ∧
      unscaled (incrementLastDigit text) = unscaled text + 1 ∧
      ('.' ∈ incrementLastDigit text ↔ '.' ∈ text) ∧
      (afterPoint (incrementLastDigit text)).length = (afterPoint text).length ∧
      if AllNines text then
        ∃ rest, incrementLastDigit text = '1' :: rest ∧ rest.length = text.length
      else (incrementLastDigit text).length = text.length := by
  have hpattern := pointPattern_incrementLastDigit h.isDigit_or_point
  have hchars : ∀ c ∈ incrementLastDigit text, c.isDigit = true ∨ c = '.' := by
    intro c hc
    exact isDigit_or_point_of_mem_carry (isDigit_or_point_of_mem_reverse h.isDigit_or_point) c
      (List.mem_reverse.1 hc)
  -- All but the number can be told from the pattern of points.
  refine ⟨⟨hchars, exists_digit_of_pattern hchars h.exists_digit ⟨_, hpattern⟩, ?_⟩,
    unscaled_incrementLastDigit h.isDigit_or_point, ?_, ?_, ?_⟩
  · have hcount := h.count_point
    rw [count_point_eq] at hcount ⊢
    rw [hpattern]
    split_ifs <;> simpa using hcount
  · rw [point_mem_iff, point_mem_iff, hpattern]
    split_ifs <;> simp
  · rw [length_afterPoint, length_afterPoint, hpattern]
    split_ifs <;> rfl
  · -- The pattern is longer by one just when all digits are nines.
    have hlength := congrArg List.length hpattern
    rw [length_pointPattern, List.length_append, length_pointPattern] at hlength
    split_ifs at hlength ⊢ with hall
    · obtain ⟨rest, hrest⟩ := exists_carry_of_allNines ((allNines_reverse text).2 hall)
      have hfront : incrementLastDigit text = '1' :: rest.reverse := by
        rw [incrementLastDigit, hrest, List.reverse_append]
        rfl
      rw [hfront, List.length_cons, List.length_singleton] at hlength
      exact ⟨rest.reverse, hfront, by omega⟩
    · rwa [List.length_nil, Nat.zero_add] at hlength

/-- Nines on both sides of the point are carried through, and the text grows. -/
theorem incrementLastDigit_pointed_nines :
    Pointed ['9', '.', '9'] ∧ AllNines ['9', '.', '9'] ∧
      unscaled (incrementLastDigit ['9', '.', '9']) = 100 ∧
      ∃ rest, incrementLastDigit ['9', '.', '9'] = '1' :: rest ∧ rest.length = 3 := by
  have hpointed : Pointed ['9', '.', '9'] := ⟨by simp, ⟨'9', by simp, rfl⟩, by decide⟩
  have hnines : AllNines ['9', '.', '9'] := by decide
  obtain ⟨-, hnumber, -, -, hlength⟩ := incrementLastDigit_pointed hpointed
  rw [if_pos hnines] at hlength
  exact ⟨hpointed, hnines, hnumber, hlength⟩

end GlobeView

/-
# Which delimiters a date is found under

`redelimit` looks at the first ten characters of a text.  Four, two and two digits
with delimiters of one character between them fill these ten exactly, and without
delimiters the digits stand at fixed bytes, so under both the date is found and is
put under any other delimiter.  A longer delimiter pushes the day out of the ten
characters, and more of the date with every character:

| characters of the delimiter | parts that are found |
| --- | --- |
| 0 or 1 | year, month, day |
| 2 | year, month, nothing |
| 3 to 6 | year, what is left of the month and a delimiter, nothing |
| from 7 on | the year and six characters of the delimiter, nothing, nothing |

In the last three rows the parts do not have eight characters together, so the date
comes out wrong whatever the digits are (`redelimit_eq_iff`).
-/

import GlobeView.Calendar.Redelimit
import GlobeView.Proofs.Number.Digits
import GlobeView.Proofs.Text.Pieces

namespace GlobeView

/-- The digits of a year, a month and a day. -/
structure DateDigits (year month day : List Char) : Prop where
  year : DigitRun 4 4 year
  month : DigitRun 2 2 month
  day : DigitRun 2 2 day

instance {year month day : List Char} : Decidable (DateDigits year month day) :=
  decidable_of_iff (DigitRun 4 4 year ∧ DigitRun 2 2 month ∧ DigitRun 2 2 day)
    ⟨fun h => ⟨h.1, h.2.1, h.2.2⟩, fun h => ⟨h.year, h.month, h.day⟩⟩

/-- Year, month and day with a delimiter between them. -/
def delimited (year month day delimiter : List Char) : List Char :=
  year ++ delimiter ++ month ++ delimiter ++ day

/-- A date has the length of its three parts and two delimiters. -/
theorem length_delimited (year month day delimiter : List Char) :
    (delimited year month day delimiter).length
      = year.length + month.length + day.length + 2 * delimiter.length := by
  simp only [delimited, List.length_append]
  omega

/-- Once three parts are found, they are put together with the new delimiter. -/
theorem redelimit_of_dateParts {text source a b c : List Char}
    (h : dateParts text source = [a, b, c]) (target : List Char) :
    redelimit text source target = delimited a b c target := by
  rw [redelimit, h]
  simp [delimited, List.intercalate]

/-! ### Without a delimiter -/

/-- A digit takes one byte. -/
theorem utf8Size_of_isDigit {c : Char} (h : c.isDigit = true) : c.utf8Size = 1 := by
  have h57 : '9'.toNat = 57 := rfl
  have hdigit := Char.isDigit_iff_toNat.1 h
  refine Char.utf8Size_eq_one_iff.2 ?_
  change c.toNat ≤ 127
  omega

section

variable {front : List Char} (hfront : ∀ c ∈ front, c.isDigit = true) (rest : List Char)

include hfront

/-- The digits in front take one byte each, whatever comes behind them. -/
theorem byteCount_append : byteCount (front ++ rest) = front.length + byteCount rest := by
  induction front with
  | nil => simp
  | cons c front ih =>
    have hc := utf8Size_of_isDigit (hfront c List.mem_cons_self)
    have hih := ih fun d hd => hfront d (List.mem_cons_of_mem c hd)
    unfold byteCount at hih ⊢
    rw [List.cons_append, List.foldr_cons, hih, hc, List.length_cons]
    omega

/-- Digits are one byte each, so as many bytes as digits can be dropped, -/
theorem dropBytes_append : dropBytes front.length (front ++ rest) = some rest := by
  induction front with
  | nil => simp [dropBytes]
  | cons c front ih =>
    have hc := utf8Size_of_isDigit (hfront c List.mem_cons_self)
    have hih := ih fun d hd => hfront d (List.mem_cons_of_mem c hd)
    rw [List.length_cons, List.cons_append, dropBytes, hc, if_pos (by omega)]
    exact hih

/-- or taken. -/
theorem takeBytes_append : takeBytes front.length (front ++ rest) = some front := by
  induction front with
  | nil => simp [takeBytes]
  | cons c front ih =>
    have hc := utf8Size_of_isDigit (hfront c List.mem_cons_self)
    have hih := ih fun d hd => hfront d (List.mem_cons_of_mem c hd)
    rw [List.length_cons, List.cons_append, takeBytes, hc, if_pos (by omega)]
    change (takeBytes front.length (front ++ rest)).map _ = _
    rw [hih]
    rfl

/-- Digits stand at the bytes that their number and that of the digits before them tell. -/
theorem bytePart_append {part : List Char} (hpart : ∀ c ∈ part, c.isDigit = true) :
    bytePart (front ++ (part ++ rest)) front.length (front.length + part.length) = part := by
  have hcount : byteCount (front ++ (part ++ rest))
      = front.length + (part.length + byteCount rest) := by
    rw [byteCount_append hfront, byteCount_append hpart]
  have hstop : min (front.length + part.length) (byteCount (front ++ (part ++ rest)))
      = front.length + part.length := by omega
  unfold bytePart
  dsimp only
  rw [hstop, if_neg (by omega), dropBytes_append hfront, Nat.add_sub_cancel_left, Option.bind_some,
    takeBytes_append hpart, Option.getD_some]

end

namespace DateDigits

variable {year month day : List Char} (h : DateDigits year month day)

include h

/-- Without a delimiter the parts of a date are told apart by their lengths. -/
theorem dateParts_nil : dateParts (delimited year month day []) [] = [year, month, day] := by
  have hfront : ∀ c ∈ year ++ month, c.isDigit = true :=
    List.forall_mem_append.2 ⟨h.year.isDigit, h.month.isDigit⟩
  have hyear := @bytePart_append [] (List.forall_mem_nil _) (month ++ day) year h.year.isDigit
  have hmonth := bytePart_append h.year.isDigit day h.month.isDigit
  have hday := bytePart_append hfront [] h.day.isDigit
  simp only [List.append_nil, List.nil_append, List.append_assoc, List.length_nil,
    List.length_append, h.year.length_eq, h.month.length_eq, h.day.length_eq,
    Nat.zero_add, Nat.reduceAdd] at hyear hmonth hday
  simp only [dateParts, delimited, List.isEmpty_nil, if_true, List.append_nil, List.append_assoc,
    hyear, hmonth, hday]

/-! ### Under a delimiter -/

section

variable {c : Char} (hc : c.isDigit = false) {separator : List Char}

/-- Six characters after the year are looked at. -/
theorem dateParts_cons : dateParts (delimited year month day (c :: separator)) (c :: separator)
    = firstThree (piecesAtText (c :: separator)
        (year ++ (c :: (separator ++ (month ++ (c :: separator ++ day)))).take 6)) := by
  have hten : (delimited year month day (c :: separator)).take 10
      = year ++ (c :: (separator ++ (month ++ (c :: separator ++ day)))).take 6 := by
    simp only [delimited, List.append_assoc, List.cons_append]
    rw [List.take_append, List.take_of_length_le (by rw [h.year.length_eq]; omega),
      h.year.length_eq]
  rw [dateParts, List.isEmpty_cons, if_neg Bool.false_ne_true, hten]

include hc

/-- A delimiter of one character leaves room for the whole date. -/
theorem dateParts_singleton :
    dateParts (delimited year month day [c]) [c] = [year, month, day] := by
  have hpieces := piecesAtText_append (h.year.not_mem hc) [] (month ++ c :: ([] ++ day))
  rw [piecesAtText_append (h.month.not_mem hc), piecesAtText_of_not_mem (h.day.not_mem hc)]
    at hpieces
  rw [h.dateParts_cons, List.take_of_length_le]
  · exact congrArg firstThree hpieces
  · simp [h.month.length_eq, h.day.length_eq]

/-- If it has six characters at most, the year is found. -/
theorem dateParts_of_le (hlen : separator.length ≤ 5) :
    dateParts (delimited year month day (c :: separator)) (c :: separator)
      = firstThree (year :: piecesAtText (c :: separator)
          ((month ++ (c :: separator ++ day)).take (5 - separator.length))) := by
  have hsix : (c :: (separator ++ (month ++ (c :: separator ++ day)))).take 6
      = c :: (separator ++ (month ++ (c :: separator ++ day)).take (5 - separator.length)) := by
    rw [List.take_succ_cons, List.take_append, List.take_of_length_le hlen]
  rw [h.dateParts_cons, hsix, piecesAtText_append (h.year.not_mem hc)]

/-- With two characters the second delimiter is the end. -/
theorem dateParts_pair (hlen : separator.length = 1) :
    dateParts (delimited year month day (c :: separator)) (c :: separator)
      = [year, month, []] := by
  have hfour : (month ++ (c :: separator ++ day)).take 4 = month ++ c :: (separator ++ []) := by
    rw [List.take_append, List.take_of_length_le (by rw [h.month.length_eq]; omega),
      h.month.length_eq, List.cons_append, List.take_succ_cons, List.take_append, hlen,
      List.take_of_length_le hlen.le]
    simp
  rw [h.dateParts_of_le hc (by omega), hlen, hfour, piecesAtText_append (h.month.not_mem hc),
    piecesAtText]
  rfl

/-- With more there is no second delimiter. -/
theorem dateParts_few (hlow : 2 ≤ separator.length) (hlen : separator.length ≤ 5) :
    ∃ rest, rest.length + separator.length = 5 ∧
      dateParts (delimited year month day (c :: separator)) (c :: separator)
        = [year, rest, []] := by
  -- Ten characters hold the year and the separator, and what is left goes to the month.
  refine ⟨(month ++ (c :: separator ++ day)).take (5 - separator.length), ?_, ?_⟩
  · simp only [List.length_take, List.length_append, List.length_cons, h.month.length_eq]
    omega
  · rw [h.dateParts_of_le hc hlen, List.take_append, piecesAtText_append_short]
    · rfl
    · exact fun hmem => h.month.not_mem hc (List.mem_of_mem_take hmem)
    · simp only [List.length_take, h.month.length_eq]
      omega

/-- From seven characters on there is no whole delimiter. -/
theorem dateParts_many (hlow : 6 ≤ separator.length) :
    ∃ rest, rest.length = 6 ∧
      dateParts (delimited year month day (c :: separator)) (c :: separator)
        = [year ++ rest, [], []] := by
  have hlength : ((c :: (separator ++ (month ++ (c :: separator ++ day)))).take 6).length = 6 := by
    simp only [List.length_take, List.length_cons, List.length_append]
    omega
  refine ⟨_, hlength, ?_⟩
  rw [h.dateParts_cons, piecesAtText_append_short (h.year.not_mem hc) (by omega)]
  rfl

/-- **Under a delimiter of two characters or more the date comes out wrong:** the parts that are
found do not have eight characters together. -/
theorem redelimit_ne (hlen : separator ≠ []) (target : List Char) :
    redelimit (delimited year month day (c :: separator)) (c :: separator) target
      ≠ delimited year month day target := by
  intro heq
  -- In each case the result has not as many characters as the date with new delimiters.
  have hlength := congrArg List.length heq
  have hyear := h.year.length_eq
  have hmonth := h.month.length_eq
  have hday := h.day.length_eq
  have hpos := List.length_pos_iff.2 hlen
  rw [length_delimited year] at hlength
  rcases Nat.lt_or_ge separator.length 2 with hpair | hmore
  · rw [redelimit_of_dateParts (h.dateParts_pair hc (by omega)), length_delimited,
      List.length_nil] at hlength
    omega
  rcases Nat.lt_or_ge separator.length 6 with hfew | hmany
  · obtain ⟨rest, hrest, hparts⟩ := h.dateParts_few hc hmore (by omega)
    rw [redelimit_of_dateParts hparts, length_delimited, List.length_nil] at hlength
    omega
  · obtain ⟨rest, hrest, hparts⟩ := h.dateParts_many hc hmany
    rw [redelimit_of_dateParts hparts, length_delimited, List.length_append,
      List.length_nil] at hlength
    omega

end

/-- **Without a delimiter, or under one of a single character, the date is found.** -/
theorem redelimit_delimited {source : List Char} (hsource : ∀ c ∈ source, c.isDigit = false)
    (hlen : source.length ≤ 1) (target : List Char) :
    redelimit (delimited year month day source) source target
      = delimited year month day target := by
  match source, hsource, hlen with
  | [], _, _ => exact redelimit_of_dateParts h.dateParts_nil target
  | [c], hsource, _ =>
    exact redelimit_of_dateParts (h.dateParts_singleton (hsource c List.mem_cons_self)) target

end DateDigits

/-- **A date is found exactly if its delimiter has one character at most.**  Four, two and two
digits, delimited by any text without digits, are put under another delimiter as documented if
and only if the first delimiter is not longer; and then, if there are no digits in the other
delimiter either, putting the date back gives the text again if and only if that one is not
longer. -/
theorem redelimit_eq_iff {year month day source target : List Char}
    (h : DateDigits year month day) (hsource : ∀ c ∈ source, c.isDigit = false) :
    (redelimit (delimited year month day source) source target
        = delimited year month day target ↔ source.length ≤ 1) ∧
      (source.length ≤ 1 → (∀ c ∈ target, c.isDigit = false) →
        (redelimit (redelimit (delimited year month day source) source target) target source
          = delimited year month day source ↔ target.length ≤ 1)) := by
  -- Both directions are the same statement, with the delimiters exchanged.
  have hiff {a b : List Char} (ha : ∀ c ∈ a, c.isDigit = false) :
      redelimit (delimited year month day a) a b = delimited year month day b ↔ a.length ≤ 1 := by
    refine ⟨fun heq => ?_, fun hlen => h.redelimit_delimited ha hlen b⟩
    match a, ha with
    | [], _ => exact Nat.zero_le 1
    | [c], _ => exact le_rfl
    | c :: d :: a, ha =>
      exact absurd heq (h.redelimit_ne (ha c List.mem_cons_self) (List.cons_ne_nil d a) b)
  refine ⟨hiff hsource, fun hlen htarget => ?_⟩
  rw [h.redelimit_delimited hsource hlen]
  exact hiff htarget

/-- From a middle dot, which has two bytes, to no delimiter and back. -/
theorem redelimit_middle_dot :
    redelimit "2016·02·29".toList ['·'] [] = "20160229".toList ∧
      redelimit (redelimit "2016·02·29".toList ['·'] []) [] ['·'] = "2016·02·29".toList := by
  have h : DateDigits "2016".toList "02".toList "29".toList := by decide
  have hdot : ∀ c ∈ ['·'], c.isDigit = false := List.forall_mem_singleton.2 rfl
  have hfound := (@redelimit_eq_iff _ _ _ _ [] h hdot).1.2 le_rfl
  have hback := ((@redelimit_eq_iff _ _ _ _ [] h hdot).2 le_rfl (List.forall_mem_nil _)).2
    (Nat.zero_le 1)
  exact ⟨hfound, hback⟩

/-- Between pairs of hyphens the day is lost. -/
theorem redelimit_two_hyphens :
    DateDigits "2013".toList "11".toList "14".toList ∧ (∀ c ∈ ['-', '-'], c.isDigit = false) ∧
      redelimit (delimited "2013".toList "11".toList "14".toList ['-', '-']) ['-', '-'] ['/']
        = "2013/11/".toList ∧
      delimited "2013".toList "11".toList "14".toList ['/'] = "2013/11/14".toList := by
  have hhyphens : ∀ c ∈ ['-', '-'], c.isDigit = false :=
    List.forall_mem_cons.2 ⟨rfl, List.forall_mem_singleton.2 rfl⟩
  exact ⟨by decide, hhyphens, by decide +kernel, by decide⟩

end GlobeView

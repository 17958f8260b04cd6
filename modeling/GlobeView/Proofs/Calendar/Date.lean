/-
# Days and dates are one count

The calendar is told by `Date.next`, the date after a date, and `Date.IsDay`
counts with it from 1970-01-01 onwards and backwards.  `Date.toDay` and
`Date.ofDay` compute the same count and its inverse without counting:

* `Date.toDay_ofDay`, `Date.valid_ofDay`: every day has a date, which exists;
* `Date.ofDay_toDay`: every date that exists is the date of its day;
* `Date.isDay_iff`: both agree with the count.

Computing a date takes a day apart into the cycles of the calendar (`Cycles`).
A year that begins in March has its leap day at its end, so an era has four
centuries, a century 25 fours of years and a four four years of 365 days, with
one day more at the end of a four, one less at the end of a century, and one
more at the end of the era.
-/

import GlobeView.Calendar.Date
import Mathlib.Tactic.IntervalCases

namespace GlobeView

/-! ### Months and leap years -/

namespace Date

/-- Every fourth year is a leap year, but of the full centuries only every fourth. -/
theorem isLeap_iff {year : Int} :
    isLeap year = true ↔ year % 4 = 0 ∧ (year % 100 ≠ 0 ∨ year % 400 = 0) := by
  unfold isLeap
  rw [Bool.and_eq_true, Bool.or_eq_true, decide_eq_true_iff, decide_eq_true_iff,
    decide_eq_true_iff]

/-- The number of a month counted from March. -/
def monthFromMarch (m : Int) : Nat :=
  (if m < 10 then m + 3 else m - 9).toNat

/-- The days of a year that begins in March before one of its months. -/
def daysBefore (m : Int) : Int :=
  (153 * m + 2) / 5

/-- **Months differ in length as the line through their first days does,** but for the
last one, February. -/
theorem daysInMonth_monthFromMarch (year : Int) {m : Int} (h : 0 ≤ m ∧ m < 11) :
    (daysInMonth year (monthFromMarch m) : Int) = daysBefore (m + 1) - daysBefore m := by
  obtain ⟨h₀, h₁⟩ := h
  interval_cases m <;> rfl

/-- February is the month whose length the leap year decides. -/
theorem daysInMonth_two (year : Int) :
    daysInMonth year 2 = if isLeap year = true then 29 else 28 :=
  rfl

/-- The day of a date in the year that begins in March. -/
theorem toDay_monthFromMarch (year : Int) {m : Int} (hm : 0 ≤ m ∧ m ≤ 11) (day : Nat) :
    toDay ⟨year + if m < 10 then 0 else 1, monthFromMarch m, day⟩
      = 365 * year + year / 4 - year / 100 + year / 400 + (daysBefore m + day - 1) - 719468 := by
  have hmonth : (monthFromMarch m : Int) = if m < 10 then m + 3 else m - 9 := by
    unfold monthFromMarch
    split <;> omega
  unfold toDay daysBefore
  -- January and February belong to the year that began in the March before.
  split at hmonth
  · rename_i hlt
    have h₁ : ¬ monthFromMarch m ≤ 2 := by omega
    simp only [if_neg h₁, if_pos hlt, hmonth]
    omega
  · rename_i hge
    have h₁ : monthFromMarch m ≤ 2 := by omega
    simp only [if_pos h₁, if_neg hge, hmonth]
    omega

/-- The months of the calendar are those counted from March. -/
theorem exists_monthFromMarch {month : Nat} (h : 1 ≤ month ∧ month ≤ 12) :
    ∃ m : Int, (0 ≤ m ∧ m ≤ 11) ∧ monthFromMarch m = month := by
  refine ⟨if month ≤ 2 then month + 9 else month - 3, ?_, ?_⟩
  · split <;> omega
  · unfold monthFromMarch
    split <;> split <;> omega

end Date

open Date

/-! ### Cycles -/

/-- A day as the calendar's cycles count it, all from zero: the era of 400 years, the
century of the era, the four years of the century, the year of the four, and the day of
that year, which begins in March. -/
structure Cycles where
  era : Int
  century : Int
  four : Int
  year : Int
  day : Int

namespace Cycles

/-- Every cycle holds the next smaller one, and a year of 366 days ends a four, which
ends no century, or only one that ends the era. -/
structure Valid (k : Cycles) : Prop where
  century : 0 ≤ k.century ∧ k.century ≤ 3
  four : 0 ≤ k.four ∧ k.four ≤ 24
  year : 0 ≤ k.year ∧ k.year ≤ 3
  day : 0 ≤ k.day ∧ k.day ≤ 365
  leap : k.day = 365 → k.year = 3 ∧ (k.four = 24 → k.century = 3)

/-- The day of the era. -/
def dayOfEra (k : Cycles) : Int :=
  36524 * k.century + 1461 * k.four + 365 * k.year + k.day

/-- The number of the day. -/
def number (k : Cycles) : Int :=
  k.era * 146097 + k.dayOfEra - 719468

/-- The month, counted from March. -/
def month (k : Cycles) : Int :=
  (5 * k.day + 2) / 153

/-- The year of the era. -/
def yearOfEra (k : Cycles) : Int :=
  100 * k.century + 4 * k.four + k.year

/-- The date of the day. -/
def date (k : Cycles) : Date where
  year := k.yearOfEra + k.era * 400 + if k.month < 10 then 0 else 1
  month := monthFromMarch k.month
  day := (k.day - daysBefore k.month + 1).toNat

/-- Every day is counted by the cycles. -/
theorem exists_number (day : Int) : ∃ k : Cycles, k.Valid ∧ k.number = day := by
  let era := (day + 719468) / 146097
  let ofEra := day + 719468 - era * 146097
  -- The last day of an era would begin a fifth century, that of a leap year a fifth year.
  let century := min (ofEra / 36524) 3
  let ofCentury := ofEra - 36524 * century
  let four := ofCentury / 1461
  let year := min ((ofCentury - 1461 * four) / 365) 3
  refine ⟨⟨era, century, four, year, ofCentury - 1461 * four - 365 * year⟩, ?_, ?_⟩
  · constructor <;> dsimp only <;> omega
  · simp only [number, dayOfEra]
    omega

variable {k : Cycles}

/-- An era of 400 years has 146097 days, which are numbered from 0. -/
theorem Valid.dayOfEra_mem (h : k.Valid) : 0 ≤ k.dayOfEra ∧ k.dayOfEra < 146097 := by
  obtain ⟨hcentury, hfour, hyear, hday, hleap⟩ := h
  unfold dayOfEra
  omega

/-- **The year of the era is found in one division,** once the days by which the cycles
are longer or shorter than whole years are taken out. -/
theorem Valid.yearOfEra_eq (h : k.Valid) :
    (k.dayOfEra - k.dayOfEra / 1460 + k.dayOfEra / 36524 - k.dayOfEra / 146096) / 365
      = k.yearOfEra := by
  obtain ⟨hcentury, hfour, hyear, hday, hleap⟩ := h
  unfold yearOfEra
  generalize he : k.dayOfEra = e
  unfold dayOfEra at he
  -- The last day of an era is the one leap day that the centuries do not account for.
  by_cases hlast : e = 146096
  · omega
  · have h₁ : e / 36524 = k.century := by omega
    have h₂ : e / 146096 = 0 := by omega
    have h₃ : e / 1460 = 25 * k.century + k.four
        + (24 * k.century + k.four + 365 * k.year + k.day) / 1460 := by omega
    rw [h₁, h₂, h₃]
    omega

/-- The days before a year of the era. -/
theorem Valid.dayOfEra_sub (h : k.Valid) :
    k.dayOfEra - (365 * k.yearOfEra + k.yearOfEra / 4 - k.yearOfEra / 100) = k.day := by
  obtain ⟨hcentury, hfour, hyear, -, -⟩ := h
  unfold dayOfEra yearOfEra
  omega

/-- **`ofDay` finds the cycles of a day.** -/
theorem Valid.ofDay_number (h : k.Valid) : Date.ofDay k.number = k.date := by
  obtain ⟨hpos, hlt⟩ := h.dayOfEra_mem
  have hera : (k.number + 719468) / 146097 = k.era := by
    unfold number
    omega
  have hday : k.number + 719468 - k.era * 146097 = k.dayOfEra := by
    unfold number
    omega
  simp only [Date.ofDay, hera, hday, h.yearOfEra_eq, h.dayOfEra_sub]
  rfl

/-- The months of a year that begins in March are numbered from 0 to 11. -/
theorem Valid.month_mem (h : k.Valid) : 0 ≤ k.month ∧ k.month ≤ 11 := by
  have hday := h.day
  unfold month
  omega

/-- A year of 366 days holds the leap day of the year after it. -/
theorem Valid.isLeap (h : k.Valid) (hday : k.day = 365) :
    Date.isLeap (k.yearOfEra + k.era * 400 + 1) = true := by
  obtain ⟨hyear, hcentury⟩ := h.leap hday
  have hfour := h.four
  have hcentury' := h.century
  refine isLeap_iff.2 ?_
  unfold yearOfEra
  omega

/-- **The date of a day exists.** -/
theorem Valid.valid_date (h : k.Valid) : k.date.Valid := by
  have hmonth := h.month_mem
  have hday := h.day
  have hdef : k.month = (5 * k.day + 2) / 153 := rfl
  have hbefore : daysBefore k.month = (153 * k.month + 2) / 5 := rfl
  -- Months are counted from March and then given their usual numbers.
  have hnumber : 1 ≤ monthFromMarch k.month ∧ monthFromMarch k.month ≤ 12 := by
    unfold monthFromMarch
    split <;> omega
  refine ⟨hnumber.1, hnumber.2, ?_, ?_⟩
  · change 1 ≤ (k.day - daysBefore k.month + 1).toNat
    omega
  · change (k.day - daysBefore k.month + 1).toNat ≤ daysInMonth _ (monthFromMarch k.month)
    -- February is the last month, and the only one whose length depends on the year.
    by_cases hlast : k.month < 11
    · have hlen := daysInMonth_monthFromMarch k.date.year ⟨hmonth.1, hlast⟩
      unfold daysBefore at *
      omega
    · have hm : k.month = 11 := by omega
      have hyear : k.date.year = k.yearOfEra + k.era * 400 + 1 := by
        rw [date, hm]
        rfl
      have htwo : monthFromMarch 11 = 2 := rfl
      have hleap := h.isLeap
      rw [← hyear] at hleap
      rw [hm] at hbefore
      rw [hm, htwo, daysInMonth_two]
      split
      · omega
      · rename_i hcommon
        -- A year has no day 365 unless the February it ends with is a long one.
        have hne : k.day ≠ 365 := fun heq => hcommon (hleap heq)
        omega

/-- **The date of a day has the number of the day.** -/
theorem Valid.toDay_date (h : k.Valid) : k.date.toDay = k.number := by
  have hday := h.day
  have hdef : k.month = (5 * k.day + 2) / 153 := rfl
  obtain ⟨hcentury, hfour, hyear, -, -⟩ := h
  have hbefore : daysBefore k.month = (153 * k.month + 2) / 5 := rfl
  rw [date, toDay_monthFromMarch _ ⟨by omega, by omega⟩]
  unfold number dayOfEra yearOfEra
  omega

end Cycles

namespace Date

/-- The day of a date in the year that begins in March, counted from 0: it lies in the month of
the date, and only in a leap year is it day 365. -/
theorem Valid.dayOfMarchYear {year m : Int} {day : Nat} (hm : 0 ≤ m ∧ m ≤ 11)
    (h : Valid ⟨year, monthFromMarch m, day⟩) :
    daysBefore m ≤ daysBefore m + day - 1 ∧ daysBefore m + day - 1 ≤ 365 ∧
      (5 * (daysBefore m + day - 1) + 2) / 153 = m ∧
      (daysBefore m + day - 1 = 365 → isLeap ((year - if m < 10 then 0 else 1) + 1) = true) := by
  obtain ⟨-, -, hday, hday'⟩ := h
  dsimp only at hday hday'
  -- The numbering of the days follows from the lengths of the months, except in February.
  by_cases hlast : m < 11
  · have hlen := daysInMonth_monthFromMarch year ⟨hm.1, hlast⟩
    unfold daysBefore at *
    omega
  · obtain rfl : m = 11 := by omega
    have htwo : monthFromMarch 11 = 2 := rfl
    have hbefore : daysBefore 11 = 337 := rfl
    rw [htwo, daysInMonth_two] at hday'
    rw [if_neg (by decide), sub_add_cancel]
    split at hday'
    · rename_i hleap
      exact ⟨by omega, by omega, by omega, fun _ => hleap⟩
    · exact ⟨by omega, by omega, by omega, fun h => by omega⟩

/-- Every date that exists is the date of a day counted by the cycles. -/
theorem Valid.exists_cycles {d : Date} (h : d.Valid) : ∃ k : Cycles, k.Valid ∧ k.date = d := by
  obtain ⟨year, month, day⟩ := d
  obtain ⟨m, hm, rfl⟩ := exists_monthFromMarch ⟨h.1, h.2.1⟩
  obtain ⟨hu₀, hu₁, hmonth, hleap⟩ := h.dayOfMarchYear hm
  -- The year that begins in March and holds the date, and the day of that year.
  generalize hy : (year - if m < 10 then 0 else 1) = y at hleap
  generalize hu : daysBefore m + day - 1 = u at hu₀ hu₁ hmonth hleap
  rw [isLeap_iff] at hleap
  refine ⟨⟨y / 400, y % 400 / 100, y % 100 / 4, y % 4, u⟩, ?_, ?_⟩
  · have hpos : 0 ≤ daysBefore m := by
      unfold daysBefore
      omega
    constructor <;> dsimp only <;> omega
  · have hm' : Cycles.month ⟨y / 400, y % 400 / 100, y % 100 / 4, y % 4, u⟩ = m := hmonth
    have hy' : Cycles.yearOfEra ⟨y / 400, y % 400 / 100, y % 100 / 4, y % 4, u⟩ = y % 400 := by
      unfold Cycles.yearOfEra
      dsimp only
      omega
    rw [Cycles.date, hm', hy', Date.mk.injEq]
    dsimp only
    refine ⟨?_, rfl, by omega⟩
    split at hy <;> split <;> omega

/-- **A day is the day of its date.** -/
theorem toDay_ofDay (day : Int) : (ofDay day).toDay = day := by
  obtain ⟨k, hk, rfl⟩ := Cycles.exists_number day
  rw [hk.ofDay_number, hk.toDay_date]

/-- **The date of a day exists.** -/
theorem valid_ofDay (day : Int) : (ofDay day).Valid := by
  obtain ⟨k, hk, rfl⟩ := Cycles.exists_number day
  rw [hk.ofDay_number]
  exact hk.valid_date

/-- **A date that exists is the date of its day.** -/
theorem ofDay_toDay {d : Date} (h : d.Valid) : ofDay d.toDay = d := by
  obtain ⟨k, hk, rfl⟩ := h.exists_cycles
  rw [hk.toDay_date, hk.ofDay_number]

/-! ### The count -/

/-- The date after a date. -/
def next (d : Date) : Date :=
  if d.day < daysInMonth d.year d.month then { d with day := d.day + 1 }
  else if d.month < 12 then ⟨d.year, d.month + 1, 1⟩
  else ⟨d.year + 1, 1, 1⟩

/-- The date is the one a number of days after 1970-01-01 by the calendar. -/
inductive IsDay : Int → Date → Prop where
  | epoch : IsDay 0 ⟨1970, 1, 1⟩
  | next {n : Int} {d : Date} (h : IsDay n d) : IsDay (n + 1) d.next
  | previous {n : Int} {d : Date} (hd : d.Valid) (h : IsDay (n + 1) d.next) : IsDay n d

/-- Every month has a first day. -/
theorem one_le_daysInMonth (year : Int) (month : Nat) (h : 1 ≤ month ∧ month ≤ 12) :
    1 ≤ daysInMonth year month := by
  obtain ⟨h₀, h₁⟩ := h
  by_cases htwo : month = 2
  · rw [htwo, daysInMonth_two]
    split <;> omega
  · interval_cases month <;> simp_all [daysInMonth]

/-- The day after a valid date is a valid date. -/
theorem Valid.next {d : Date} (h : d.Valid) : d.next.Valid := by
  obtain ⟨year, month, day⟩ := d
  obtain ⟨hmonth, hmonth', hday, -⟩ := h
  dsimp only at hmonth hmonth' hday
  unfold Date.next
  dsimp only
  split
  · rename_i hlt
    exact ⟨hmonth, hmonth', Nat.le_add_left 1 day, hlt⟩
  · split
    · rename_i hlt
      have hlen := one_le_daysInMonth year (month + 1) ⟨by omega, hlt⟩
      exact ⟨Nat.le_add_left 1 month, hlt, le_rfl, hlen⟩
    · have hlen := one_le_daysInMonth (year + 1) 1 (by decide)
      exact ⟨le_rfl, Nat.le_add_left 1 11, le_rfl, hlen⟩

/-- The first date after the last one of a month counted from March. -/
theorem next_last (year : Int) {m : Int} (hm : 0 ≤ m ∧ m < 11) :
    next ⟨year + if m < 10 then 0 else 1, monthFromMarch m,
        daysInMonth (year + if m < 10 then 0 else 1) (monthFromMarch m)⟩
      = ⟨year + if m + 1 < 10 then 0 else 1, monthFromMarch (m + 1), 1⟩ := by
  unfold Date.next
  dsimp only
  rw [if_neg (lt_irrefl _)]
  unfold monthFromMarch
  -- Counted from March, December is month 9, after which the number of the year changes.
  by_cases hdecember : m = 9
  · subst hdecember
    simp
  · split <;> split <;> simp <;> omega

/-- **The next date has the next day.** -/
theorem toDay_next {d : Date} (h : d.Valid) : d.next.toDay = d.toDay + 1 := by
  obtain ⟨year, month, day⟩ := d
  obtain ⟨hmonth, hmonth', hday, hday'⟩ := h
  dsimp only at hmonth hmonth' hday hday'
  -- The month is counted from March, so that the leap day comes at the end of a year.
  obtain ⟨m, hm, rfl⟩ := exists_monthFromMarch ⟨hmonth, hmonth'⟩
  obtain ⟨y, rfl⟩ : ∃ y, year = y + if m < 10 then 0 else 1 :=
    ⟨year - if m < 10 then 0 else 1, by omega⟩
  -- The next day is in the same month, or the first one of the next month.
  rcases Nat.lt_or_eq_of_le hday' with hlt | rfl
  · rw [Date.next, if_pos hlt, toDay_monthFromMarch y hm, toDay_monthFromMarch y hm]
    push_cast
    omega
  · by_cases hlast : m < 11
    · have hlen := daysInMonth_monthFromMarch (y + if m < 10 then 0 else 1) ⟨hm.1, hlast⟩
      rw [next_last y ⟨hm.1, hlast⟩, toDay_monthFromMarch y ⟨by omega, by omega⟩,
        toDay_monthFromMarch y hm]
      omega
    · -- The year that begins in March ends with February, on the 28th or the 29th.
      obtain rfl : m = 11 := by omega
      have hnext : next ⟨y + 1, 2, daysInMonth (y + 1) 2⟩ = ⟨y + 1 + 0, 3, 1⟩ := by
        simp [Date.next]
      have hmarch : toDay ⟨y + 1 + 0, 3, 1⟩ = 365 * (y + 1) + (y + 1) / 4 - (y + 1) / 100
          + (y + 1) / 400 + (0 + (1 : Nat) - 1) - 719468 :=
        toDay_monthFromMarch (y + 1) (m := 0) (by decide) 1
      have hfebruary : toDay ⟨y + 1, 2, daysInMonth (y + 1) 2⟩ = 365 * y + y / 4 - y / 100
          + y / 400 + (337 + daysInMonth (y + 1) 2 - 1) - 719468 :=
        toDay_monthFromMarch y (m := 11) (by decide) (daysInMonth (y + 1) 2)
      change (next ⟨y + 1, 2, daysInMonth (y + 1) 2⟩).toDay
        = toDay ⟨y + 1, 2, daysInMonth (y + 1) 2⟩ + 1
      rw [hnext, hmarch, hfebruary, daysInMonth_two]
      split
      · rename_i hleap
        have hleap := isLeap_iff.1 hleap
        omega
      · rename_i hcommon
        rw [isLeap_iff] at hcommon
        omega

/-- The date of the next day is the next date. -/
theorem next_ofDay (day : Int) : (ofDay day).next = ofDay (day + 1) := by
  have hvalid := valid_ofDay day
  rw [← ofDay_toDay hvalid.next, toDay_next hvalid, toDay_ofDay]

/-- **Counting on the calendar is computing the day.** -/
theorem isDay_iff {n : Int} {d : Date} : IsDay n d ↔ d.Valid ∧ d.toDay = n := by
  constructor
  · intro h
    induction h with
    | epoch => decide
    | next _ ih => exact ⟨ih.1.next, by rw [toDay_next ih.1, ih.2]⟩
    | previous hd _ ih =>
      have hday := toDay_next hd
      exact ⟨hd, by omega⟩
  · rintro ⟨hvalid, rfl⟩
    -- Every integer numbers the date that is computed from it, forwards and backwards.
    have hcount (n : Int) : IsDay n (ofDay n) := by
      induction n using Int.induction_on with
      | zero => exact .epoch
      | succ n ih =>
        rw [← next_ofDay]
        exact ih.next
      | pred n ih =>
        refine .previous (valid_ofDay _) ?_
        rw [next_ofDay, Int.sub_add_cancel]
        exact ih
    have h := hcount d.toDay
    rwa [ofDay_toDay hvalid] at h

/-- A day has one date only, the one that is computed from its number. -/
theorem IsDay.eq_ofDay {n : Int} {d : Date} (h : IsDay n d) : d = ofDay n := by
  obtain ⟨hvalid, rfl⟩ := isDay_iff.1 h
  exact (ofDay_toDay hvalid).symm

end Date
end GlobeView

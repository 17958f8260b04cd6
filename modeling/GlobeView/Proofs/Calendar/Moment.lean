/-
# Every label shows the hour of the moment

A moment in the years 0 to 9999 has a date of four, two and two digits
(`Date.Valid.iso_eq`), which is the ten characters that `redelimit` looks at.  So the
date of a hash, the date under any delimiter and the label in UTC are made of
the same four runs of digits, and the date and hour of a hash are canonical:
reading them pads nothing and gives them back.

The date is told by counting on the calendar (`Date.IsDay`), not by the formula
that computes it.
-/

import GlobeView.Calendar.Moment
import GlobeView.Proofs.Calendar.Date
import GlobeView.Proofs.Calendar.Redelimit
import GlobeView.Proofs.Hash.RoundTrip

namespace GlobeView

/-- The digits are as many as the width says and denote the number. -/
structure Shows (width : Nat) (n : Int) (ds : List Char) : Prop where
  run : DigitRun width width ds
  number : (natOfDigits ds : Int) = n

/-- A number that fits is shown by its padded digits. -/
theorem shows_paddedDigits {width n : Nat} (hwidth : 0 < width) (h : n < 10 ^ width) :
    Shows width n (paddedDigits width n) :=
  ⟨digitRun_paddedDigits hwidth h, by rw [natOfDigits_paddedDigits]⟩

namespace Date

/-- No month has more than 31 days. -/
theorem Valid.day_le {d : Date} (h : d.Valid) : d.day ≤ 31 := by
  obtain ⟨hmonth, hmonth', -, hday⟩ := h
  refine hday.trans ?_
  unfold daysInMonth
  split
  all_goals try split
  all_goals omega

/-- **A date in the years 0 to 9999 is written with four, two and two digits.** -/
theorem Valid.iso_eq {d : Date} (h : d.Valid) (hyear : 0 ≤ d.year ∧ d.year ≤ 9999) :
    ∃ year month day : List Char, Shows 4 d.year year ∧ Shows 2 d.month month ∧
      Shows 2 d.day day ∧ d.iso = year ++ '-' :: (month ++ '-' :: day) := by
  have hday := h.day_le
  have hmonth := h.2.1
  have habs : (d.year.natAbs : Int) = d.year := Int.natAbs_of_nonneg hyear.1
  have hshows : Shows 4 d.year.natAbs (paddedDigits 4 d.year.natAbs) :=
    shows_paddedDigits (by omega) (by omega)
  -- A year of four digits has no sign.
  rw [habs] at hshows
  refine ⟨_, _, _, hshows, shows_paddedDigits (by omega) (by omega),
    shows_paddedDigits (by omega) (by omega), ?_⟩
  rw [iso, yearText, if_neg (by omega), if_neg (by omega)]

end Date

/-- **A canonical selection is read from its own text,** without any options. -/
theorem Selection.Canonical.readHash_text {P O : Type} [NameCollection P] [NameCollection O]
    {s : Selection} (h : s.Canonical) (projections : P) (overlays : O) (topology : String) :
    readHash projections overlays topology
        (s.datePart ++ "/" ++ s.param ++ "/" ++ s.surface ++ "/" ++ s.level)
      = some (.ofSelection s topology) := by
  have htext : (s.datePart ++ "/" ++ s.param ++ "/" ++ s.surface ++ "/" ++ s.level).toList
      = s.front.text ++ [] := by
    simp [HashFront.text, Selection.front]
  have hread := HashGrammar.selection_eq_some_iff.2
    ⟨s.front, h.valid_front, h.denotes_front, htext, by simp [NotInFront]⟩
  rw [readHash, hread]
  rfl

/-- Runs of four, two, two and four digits are a date and an hour as they are kept. -/
theorem canonicalDate_of_shows {year month day hour : List Char} {y m d h : Int}
    (hy : Shows 4 y year) (hm : Shows 2 m month) (hd : Shows 2 d day) (hh : Shows 2 h hour) :
    CanonicalDate (String.ofList (year ++ '/' :: (month ++ '/' :: day)))
      (String.ofList (hour ++ ['0', '0'])) := by
  refine .inr ⟨year, month, day, hy.run, hm.run, hd.run, String.toList_ofList, ?_⟩
  rw [String.toList_ofList]
  -- The hour and two zeros are four digits.
  refine ⟨?_, ?_, ?_⟩
  · intro c hc
    rcases List.mem_append.1 hc with hc | hc
    · exact hh.run.isDigit c hc
    · obtain rfl : c = '0' := by simpa using hc
      rfl
  · simp [hh.run.length_eq]
  · simp [hh.run.length_eq]

namespace Moment

/-- The day of a moment in UTC. -/
def day (m : Moment) : Int :=
  m.seconds / 86400

/-- On a clock without offset a moment has the date of its day. -/
theorem dateAt_zero (m : Moment) : m.dateAt 0 = Date.ofDay m.day := by
  rw [dateAt, Int.add_zero, day]

/-- The date at offset zero is that of the day that the moment counts. -/
theorem isDay_day (m : Moment) : Date.IsDay m.day (m.dateAt 0) := by
  rw [dateAt_zero]
  exact Date.isDay_iff.2 ⟨Date.valid_ofDay _, Date.toDay_ofDay _⟩

/-- The hour is one of its day, and the moment lies in it. -/
theorem hourAt_zero_mem (m : Moment) :
    m.hourAt 0 < 24 ∧ m.day * 86400 + m.hourAt 0 * 3600 ≤ m.seconds ∧
      m.seconds < m.day * 86400 + m.hourAt 0 * 3600 + 3600 := by
  unfold hourAt day
  omega

/-- Date and hour are those of the second in UTC, whatever the clock and the fraction. -/
theorem toDateHour_eq_of_seconds {m m' : Moment} (h : m'.seconds = m.seconds) :
    m'.toDateHour = m.toDateHour := by
  rw [toDateHour, toDateHour, ymd, ymd, dateAt, dateAt, hourAt, hourAt, h]

/-- The texts that show a moment in UTC are made of these runs of digits. -/
structure Labelled (m : Moment) (year month day hour : List Char) : Prop where
  toDateHour : m.toDateHour = ⟨String.ofList (year ++ '/' :: (month ++ '/' :: day)),
    String.ofList (hour ++ ['0', '0'])⟩
  ymd : ∀ delimiter, m.ymd delimiter = year ++ delimiter ++ month ++ delimiter ++ day
  utcLabel : m.utcLabel = String.ofList
    (year ++ '-' :: (month ++ '-' :: (day ++ ' ' :: (hour ++ [':', '0', '0']))))

/-- **All labels of a moment in the years 0 to 9999 show one date and one hour.** -/
theorem exists_labelled (m : Moment)
    (hyear : 0 ≤ (m.dateAt 0).year ∧ (m.dateAt 0).year ≤ 9999) :
    ∃ year month day hour : List Char, Shows 4 (m.dateAt 0).year year ∧
      Shows 2 (m.dateAt 0).month month ∧ Shows 2 (m.dateAt 0).day day ∧
      Shows 2 (m.hourAt 0) hour ∧ m.Labelled year month day hour := by
  have hvalid : (m.dateAt 0).Valid := (Date.isDay_iff.1 m.isDay_day).1
  obtain ⟨year, month, day, hy, hm, hd, hiso⟩ := hvalid.iso_eq hyear
  have hhour := m.hourAt_zero_mem.1
  have hdelimited : (m.dateAt 0).iso = delimited year month day ['-'] := by
    rw [hiso]
    simp [delimited]
  -- The hyphen is one character, so the date is re-delimited without loss.
  have hymd (delimiter : List Char) :
      m.ymd delimiter = year ++ delimiter ++ month ++ delimiter ++ day := by
    rw [ymd, hdelimited]
    exact DateDigits.redelimit_delimited ⟨hy.run, hm.run, hd.run⟩
      (List.forall_mem_singleton.2 rfl) le_rfl delimiter
  refine ⟨year, month, day, _, hy, hm, hd, shows_paddedDigits (by omega) (by omega), ?_, hymd, ?_⟩
  · rw [toDateHour, hymd]
    simp
  · rw [utcLabel, labelAt, hiso]
    simp

/-- **A moment in the years 0 to 9999 is shown by the date and hour it lies in.**  Every
moment lies in one hour of one day of the calendar.  If the year is one of those, there
are four, two, two and two digits for year, month, day and hour of which the date and
hour of a hash, the date under any delimiter and the label in UTC are made; all moments
of the same second have the same date and hour; and a hash made of them is read, with
exactly this date and hour. -/
theorem toDateHour_names_hour (m : Moment) :
    ∃ (day : Int) (date : Date) (hour : Nat), Date.IsDay day date ∧ date.Valid ∧ hour < 24 ∧
      day * 86400 + hour * 3600 ≤ m.seconds ∧ m.seconds < day * 86400 + hour * 3600 + 3600 ∧
      (0 ≤ date.year ∧ date.year ≤ 9999 →
        (∃ yyyy mm dd hh : List Char, Shows 4 date.year yyyy ∧ Shows 2 date.month mm ∧
          Shows 2 date.day dd ∧ Shows 2 hour hh ∧ m.Labelled yyyy mm dd hh) ∧
        (∀ m' : Moment, m'.seconds = m.seconds → m'.toDateHour = m.toDateHour) ∧
        ∀ {P O : Type} [NameCollection P] [NameCollection O] (projections : P) (overlays : O)
          (topology param surface level : String), isWord param.toList = true →
          isWord surface.toList = true → isWord level.toList = true →
          let s : Selection := ⟨m.toDateHour.date, m.toDateHour.hour, param, surface, level⟩
          s.datePart = m.toDateHour.date ++ "/" ++ m.toDateHour.hour ++ "Z" ∧
            readHash projections overlays topology
                (s.datePart ++ "/" ++ param ++ "/" ++ surface ++ "/" ++ level)
              = some (.ofSelection s topology)) := by
  obtain ⟨hhour, hstart, hstop⟩ := m.hourAt_zero_mem
  refine ⟨m.day, m.dateAt 0, m.hourAt 0, m.isDay_day, (Date.isDay_iff.1 m.isDay_day).1, hhour,
    hstart, hstop, ?_⟩
  intro hyear
  obtain ⟨yyyy, mm, dd, hh, hy, hm, hd, hh', hlabels⟩ := m.exists_labelled hyear
  refine ⟨⟨yyyy, mm, dd, hh, hy, hm, hd, hh', hlabels⟩, fun m' => toDateHour_eq_of_seconds, ?_⟩
  intro P O _ _ projections overlays topology param surface level hparam hsurface hlevel s
  -- The labels make up a canonical selection, and these are read back.
  have hcanonical : s.Canonical := by
    refine ⟨?_, hparam, hsurface, hlevel⟩
    change CanonicalDate m.toDateHour.date m.toDateHour.hour
    rw [hlabels.toDateHour]
    exact canonicalDate_of_shows hy hm hd hh'
  -- A date of digits is not the word for the current one, so the hour is written too.
  have hnot : s.isCurrent = false := by
    have hdate : s.date.toList = yyyy ++ '/' :: (mm ++ '/' :: dd) := by
      change m.toDateHour.date.toList = _
      rw [hlabels.toDateHour, String.toList_ofList]
    exact Selection.isCurrent_eq_false hy.run hdate
  refine ⟨?_, hcanonical.readHash_text projections overlays topology⟩
  rw [Selection.datePart, hnot]
  rfl

/-- A leap second read from a clock five hours behind UTC: the last hour of 2016. -/
theorem leap_second_names_hour :
    let m : Moment := ⟨1483228799, 1500000000, -18000⟩
    Date.IsDay 17166 ⟨2016, 12, 31⟩ ∧ (0 : Int) ≤ 2016 ∧ (2016 : Int) ≤ 9999 ∧
      isWord "wind".toList = true ∧ m.toDateHour = ⟨"2016/12/31", "2300"⟩ ∧
      readHash ["conic"] ["off"] "/t.json" "2016/12/31/2300Z/wind/wind/wind"
        = some (.ofSelection ⟨"2016/12/31", "2300", "wind", "wind", "wind"⟩ "/t.json") := by
  intro m
  obtain ⟨day, date, hour, hdate, -, hhour, hstart, hstop, h⟩ := m.toDateHour_names_hour
  obtain rfl : day = 17166 := by
    change day * 86400 + hour * 3600 ≤ 1483228799 at hstart
    change 1483228799 < day * 86400 + hour * 3600 + 3600 at hstop
    omega
  have hday : date = ⟨2016, 12, 31⟩ := hdate.eq_ofDay.trans (by decide)
  rw [hday] at hdate h
  have htext : m.toDateHour = ⟨"2016/12/31", "2300"⟩ := by cbv
  have hyear : (0 : Int) ≤ 2016 ∧ (2016 : Int) ≤ 9999 := by decide
  have hword : isWord "wind".toList = true := by decide
  have hread := ((h hyear).2.2 ["conic"] ["off"] "/t.json" "wind" "wind" "wind"
    hword hword hword).2
  rw [htext] at hread
  exact ⟨hdate, hyear.1, hyear.2, hword, htext, hread⟩

end Moment

end GlobeView

/-
# What hashes match

`HashGrammar.selection` reads the front of a hash greedily: every run of digits
and every word is taken as long as it gets, and nothing is ever given back.
Here the grammar is stated without a reader.  A `HashFront` holds the texts of
a date part, a parameter, a surface and a level; it is `Valid` when each has its
form, and a hash matches when it starts with the text of a valid front.

| part | form | what the selection keeps |
| --- | --- | --- |
| date | `current` | `current`, no hour |
| date | four digits, one or two, one or two, three or four and `Z` | padded to two, two and four |
| param, surface, level | a word | the word |

The separators are in no class of characters that stands before them.  So all
fronts of a hash agree up to the level (`HashFront.agree`), a longest run is the
only one that can be followed by its separator, and the greedy reading finds
the front with the longest level whenever there is a front at all
(`selection_eq_some_iff`, `readHash_matches_front`).
-/

import GlobeView.Hash.Reader
import GlobeView.Proofs.Number.Digits
import GlobeView.Proofs.Hash.Option

namespace GlobeView

namespace HashGrammar

/-- Four characters end a line. -/
theorem isLineEnd_iff {c : Char} :
    isLineEnd c = true ↔ c ∈ ['\n', '\r', '\u2028', '\u2029'] := by
  simp [isLineEnd, or_assoc]

/-- **The word in front is the longest one.** -/
theorem word_eq_some_iff {cs name rest : List Char} :
    word cs = some (name, rest) ↔
      isWord name = true ∧ cs = name ++ rest ∧ NotInFront isWordChar rest := by
  unfold word
  rw [List.span_eq_takeWhile_dropWhile]
  constructor
  · intro h
    dsimp only at h
    split at h
    · cases h
    · rename_i hne
      cases h
      refine ⟨isWord_iff.2 ⟨by simpa using hne, fun c hc => List.mem_takeWhile_imp hc⟩,
        List.takeWhile_append_dropWhile.symm, notInFront_dropWhile _ _⟩
  · rintro ⟨hname, rfl, hrest⟩
    -- The run stops at the end of the name, as no word character follows.
    obtain ⟨hne, hall⟩ := isWord_iff.1 hname
    rw [takeWhile_run_append hall hrest, dropWhile_run_append hall hrest]
    simp [hne]

/-- What is read as digits is a run of them at the front. -/
theorem digitRun_of_digits {least most : Nat} {cs ds rest : List Char}
    (h : digits least most cs = some (ds, rest)) : DigitRun least most ds ∧ cs = ds ++ rest := by
  unfold digits at h
  dsimp only at h
  split at h
  · cases h
  · rename_i hleast
    cases h
    -- The digits are a run within the first `most` characters.
    have hstart : (cs.take most).takeWhile Char.isDigit <+: cs :=
      (List.takeWhile_prefix _).trans (List.take_prefix ..)
    refine ⟨⟨fun c hc => List.mem_takeWhile_imp hc, by omega, ?_⟩, ?_⟩
    · exact ((List.takeWhile_prefix _).length_le).trans (List.length_take_le ..)
    · exact (List.prefix_iff_eq_append.1 hstart).symm

/-- **A run of digits is read in full when no digit follows:** the bound on its
length never cuts it. -/
theorem digits_append {least most : Nat} {ds rest : List Char} (h : DigitRun least most ds)
    (hrest : NotInFront Char.isDigit rest) :
    digits least most (ds ++ rest) = some (ds, rest) := by
  -- No digit is left out, since there are not more of them than `most`.
  have hcut : ((ds ++ rest).take most).takeWhile Char.isDigit = ds := by
    rw [List.take_append, List.take_of_length_le h.le_most]
    refine takeWhile_run_append h.isDigit fun c hc => hrest c ?_
    rw [List.head?_take] at hc
    split at hc
    · simp at hc
    · exact hc
  have hleast : ¬ ds.length < least := Nat.not_lt.2 h.least_le
  simp [digits, hcut, hleast]

/-! ### Padding -/

/-- `out` has exactly `width` digits and denotes the number that `ds` denotes. -/
structure PaddedTo (width : Nat) (ds out : List Char) : Prop where
  run : DigitRun width width out
  number : natOfDigits out = natOfDigits ds

/-- Up to nine digits always denote a number of 32 bits. -/
theorem number?_eq_some {least most : Nat} {ds : List Char} (h : DigitRun least most ds)
    (hleast : 0 < least) (hmost : most ≤ 9) : number? ds = some (natOfDigits ds) := by
  have hne : ds ≠ [] := List.ne_nil_of_length_pos (hleast.trans_le h.least_le)
  have hall : ds.all Char.isDigit = true := List.all_eq_true.2 h.isDigit
  have hlt : natOfDigits ds < 10 ^ 9 :=
    (natOfDigits_lt h.isDigit).trans_le (Nat.pow_le_pow_right (by omega) (h.le_most.trans hmost))
  have hle : natOfDigits ds ≤ 4294967295 := by omega
  simp [number?, readNat, hne, hall, hle]

/-- **Padding keeps the number and never falls back to zero.** -/
theorem paddedTo_pad {least width : Nat} {ds : List Char} (h : DigitRun least width ds)
    (hleast : 0 < least) (hwidth : width ≤ 9) : PaddedTo width ds (pad width ds) := by
  have hpos : 0 < width := hleast.trans_le (h.least_le.trans h.le_most)
  have hnum := number?_eq_some h hleast hwidth
  have hlt : natOfDigits ds < 10 ^ width :=
    (natOfDigits_lt h.isDigit).trans_le (Nat.pow_le_pow_right (by omega) h.le_most)
  have hrun : DigitRun width width (pad width ds) := by
    rw [pad, hnum]
    exact digitRun_paddedDigits hpos hlt
  refine ⟨hrun, ?_⟩
  rw [pad, hnum, Option.getD_some, natOfDigits_paddedDigits]

/-- The padded digits are determined by the number. -/
theorem PaddedTo.eq_pad {least width : Nat} {ds out : List Char} (hout : PaddedTo width ds out)
    (h : DigitRun least width ds) (hleast : 0 < least) (hwidth : width ≤ 9) :
    out = pad width ds := by
  have hpos : 0 < width := hleast.trans_le (h.least_le.trans h.le_most)
  rw [pad, number?_eq_some h hleast hwidth, Option.getD_some, ← hout.number,
    paddedDigits_natOfDigits hpos hout.run]

/-! ### Date parts -/

/-- The text of a date part that gives a date and an hour. -/
def datedText (year month day hour : List Char) : List Char :=
  year ++ '/' :: (month ++ '/' :: (day ++ '/' :: (hour ++ ['Z'])))

/-- The texts that are date parts. -/
inductive IsDatePart : List Char → Prop where
  | current : IsDatePart currentDate.toList
  | dated {year month day hour : List Char} (hyear : DigitRun 4 4 year)
      (hmonth : DigitRun 1 2 month) (hday : DigitRun 1 2 day) (hhour : DigitRun 3 4 hour) :
      IsDatePart (datedText year month day hour)

/-- The date and the hour that a date part stands for. -/
inductive DateOf : List Char → List Char → List Char → Prop where
  | current : DateOf currentDate.toList currentDate.toList []
  | dated {year month day hour mm dd hhhh : List Char} (hyear : DigitRun 4 4 year)
      (hmonth : DigitRun 1 2 month) (hday : DigitRun 1 2 day) (hhour : DigitRun 3 4 hour)
      (hmm : PaddedTo 2 month mm) (hdd : PaddedTo 2 day dd) (hhhhh : PaddedTo 4 hour hhhh) :
      DateOf (datedText year month day hour) (year ++ '/' :: (mm ++ '/' :: dd)) hhhh

/-- What stands for a date is a date part. -/
theorem DateOf.isDatePart {text date hour : List Char} (h : DateOf text date hour) :
    IsDatePart text := by
  cases h with
  | current => exact .current
  | dated hyear hmonth hday hhour => exact .dated hyear hmonth hday hhour

/-- A date part stands for the padded date and hour. -/
theorem DateOf.of_pad {year month day hour : List Char} (hyear : DigitRun 4 4 year)
    (hmonth : DigitRun 1 2 month) (hday : DigitRun 1 2 day) (hhour : DigitRun 3 4 hour) :
    DateOf (datedText year month day hour) (year ++ '/' :: (pad 2 month ++ '/' :: pad 2 day))
      (pad 4 hour) := by
  refine .dated hyear hmonth hday hhour ?_ ?_ ?_
  · exact paddedTo_pad hmonth (by omega) (by omega)
  · exact paddedTo_pad hday (by omega) (by omega)
  · exact paddedTo_pad hhour (by omega) (by omega)

/-- Every date part stands for a date, because its numbers can be padded. -/
theorem IsDatePart.exists_dateOf {text : List Char} (h : IsDatePart text) :
    ∃ date hour, DateOf text date hour := by
  cases h with
  | current => exact ⟨_, _, .current⟩
  | dated hyear hmonth hday hhour => exact ⟨_, _, .of_pad hyear hmonth hday hhour⟩

/-- Four digits are no beginning of `current`. -/
theorem afterLiteral_currentDate_eq_none {year rest : List Char} (hyear : DigitRun 4 4 year) :
    afterLiteral currentDate.toList (year ++ rest) = none := by
  refine Option.eq_none_iff_forall_not_mem.2 ?_
  intro rest' h
  have h := afterLiteral_eq_some_iff.1 h
  have hlen := hyear.least_le
  -- A year begins with a digit, and the current date with a letter.
  cases year with
  | nil => simp at hlen
  | cons c cs =>
    have hc : c = 'c' := (List.cons.inj h).1
    have hdigit := hyear.isDigit c List.mem_cons_self
    rw [hc] at hdigit
    exact absurd hdigit (by decide)

/-- **The reader takes exactly the date parts, in full, and pads their numbers.** -/
theorem datePart_eq_some_iff {cs date hour rest : List Char} :
    datePart cs = some ((date, hour), rest) ↔
      ∃ text, DateOf text date hour ∧ cs = text ++ rest := by
  constructor
  · intro h
    unfold datePart at h
    split at h
    · rename_i rest' hcurrent
      cases h
      exact ⟨_, .current, afterLiteral_eq_some_iff.1 hcurrent⟩
    · simp only [Option.bind_eq_bind, Option.bind_eq_some_iff] at h
      obtain ⟨⟨year, cs₁⟩, h₁, cs₂, h₂, ⟨month, cs₃⟩, h₃, cs₄, h₄, ⟨day, cs₅⟩, h₅, cs₆, h₆,
        ⟨hr, cs₇⟩, h₇, cs₈, h₈, hout⟩ := h
      -- What was taken off the front makes up the text again, part by part.
      obtain ⟨hyear, rfl⟩ := digitRun_of_digits h₁
      obtain rfl := afterLiteral_eq_some_iff.1 h₂
      obtain ⟨hmonth, rfl⟩ := digitRun_of_digits h₃
      obtain rfl := afterLiteral_eq_some_iff.1 h₄
      obtain ⟨hday, rfl⟩ := digitRun_of_digits h₅
      obtain rfl := afterLiteral_eq_some_iff.1 h₆
      obtain ⟨hhour, rfl⟩ := digitRun_of_digits h₇
      obtain rfl := afterLiteral_eq_some_iff.1 h₈
      cases hout
      refine ⟨_, .of_pad hyear hmonth hday hhour, ?_⟩
      simp [datedText]
  · rintro ⟨text, hdate, rfl⟩
    cases hdate with
    | current =>
      have h : afterLiteral currentDate.toList (currentDate.toList ++ rest) = some rest :=
        afterLiteral_eq_some_iff.2 rfl
      rw [datePart, h]
    | @dated year month day hr mm dd _ hyear hmonth hday hhour hmm hdd hhh =>
      -- Each part ends before a character that is no digit, so it is read in full.
      have hslash (cs : List Char) : NotInFront Char.isDigit ('/' :: cs) :=
        notInFront_cons.2 rfl
      have hzed (cs : List Char) : NotInFront Char.isDigit ('Z' :: cs) :=
        notInFront_cons.2 rfl
      have htext : datedText year month day hr ++ rest
          = year ++ '/' :: (month ++ '/' :: (day ++ '/' :: (hr ++ 'Z' :: rest))) := by
        simp [datedText]
      rw [htext, datePart, afterLiteral_currentDate_eq_none hyear]
      simp only [Option.bind_eq_bind, digits_append hyear (hslash _), afterLiteral_singleton,
        Option.bind_some, digits_append hmonth (hslash _), digits_append hday (hslash _),
        digits_append hhour (hzed _)]
      rw [hmm.eq_pad hmonth (by omega) (by omega), hdd.eq_pad hday (by omega) (by omega),
        hhh.eq_pad hhour (by omega) (by omega)]

/-- A date part is determined by the text it stands in. -/
theorem IsDatePart.append_cancel {text text' rest rest' : List Char} (htext : IsDatePart text)
    (htext' : IsDatePart text') (h : text ++ rest = text' ++ rest') :
    text = text' ∧ rest = rest' := by
  obtain ⟨date, hour, hdate⟩ := htext.exists_dateOf
  obtain ⟨date', hour', hdate'⟩ := htext'.exists_dateOf
  -- Reading is a function, so the same text has only one date part in front.
  have hread : datePart (text ++ rest) = some ((date, hour), rest) :=
    datePart_eq_some_iff.2 ⟨text, hdate, rfl⟩
  have hread' : datePart (text' ++ rest') = some ((date', hour'), rest') :=
    datePart_eq_some_iff.2 ⟨text', hdate', rfl⟩
  rw [h] at hread
  have hrest : rest = rest' := (Prod.ext_iff.1 (Option.some.inj (hread.symm.trans hread'))).2
  subst hrest
  exact ⟨List.append_cancel_right h, rfl⟩

end HashGrammar

/-! ### Fronts -/

open HashGrammar

/-- The texts that a hash consists of up to its level. -/
structure HashFront where
  datePart : List Char
  param : List Char
  surface : List Char
  level : List Char

namespace HashFront

/-- The text of a front, its parts separated by slashes. -/
def text (f : HashFront) : List Char :=
  f.datePart ++ '/' :: (f.param ++ '/' :: (f.surface ++ '/' :: f.level))

/-- Every part has the form that the grammar asks for. -/
structure Valid (f : HashFront) : Prop where
  datePart : IsDatePart f.datePart
  param : isWord f.param = true
  surface : isWord f.surface = true
  level : isWord f.level = true

/-- The front of a hash with the longest level. -/
structure Longest (f : HashFront) (hash : List Char) : Prop where
  valid : f.Valid
  starts : f.text <+: hash
  longest : ∀ g : HashFront, g.Valid → g.text <+: hash → g.level.length ≤ f.level.length

/-- The selection that a front stands for: its words, and the padded date and hour. -/
structure Denotes (f : HashFront) (s : Selection) : Prop where
  date : DateOf f.datePart s.date.toList s.hour.toList
  param : s.param.toList = f.param
  surface : s.surface.toList = f.surface
  level : s.level.toList = f.level

/-- Every valid front stands for a selection. -/
theorem Valid.exists_denotes {f : HashFront} (h : f.Valid) : ∃ s, f.Denotes s := by
  obtain ⟨date, hour, hdate⟩ := h.datePart.exists_dateOf
  refine ⟨⟨String.ofList date, String.ofList hour, String.ofList f.param,
    String.ofList f.surface, String.ofList f.level⟩,
    ⟨?_, String.toList_ofList, String.toList_ofList, String.toList_ofList⟩⟩
  simpa only [String.toList_ofList] using hdate

/-- A slash ends a word. -/
theorem notInFront_slash (cs : List Char) : NotInFront isWordChar ('/' :: cs) :=
  notInFront_cons.2 rfl

/-- **Two fronts of one hash agree on all but where the level stops.** -/
theorem agree {f g : HashFront} (hf : f.Valid) (hg : g.Valid) {rest rest' : List Char}
    (h : f.text ++ rest = g.text ++ rest') :
    f.datePart = g.datePart ∧ f.param = g.param ∧ f.surface = g.surface ∧
      f.level ++ rest = g.level ++ rest' := by
  simp only [text, List.append_assoc, List.cons_append] at h
  obtain ⟨hdate, h⟩ := hf.datePart.append_cancel hg.datePart h
  obtain ⟨hparam, h⟩ := run_append_cancel (isWord_iff.1 hf.param).2 (isWord_iff.1 hg.param).2
    (notInFront_slash _) (notInFront_slash _) (List.cons.inj h).2
  obtain ⟨hsurface, h⟩ := run_append_cancel (isWord_iff.1 hf.surface).2
    (isWord_iff.1 hg.surface).2 (notInFront_slash _) (notInFront_slash _) (List.cons.inj h).2
  exact ⟨hdate, hparam, hsurface, (List.cons.inj h).2⟩

/-- A front whose level no word character follows has the longest level. -/
theorem longest_of_notInFront {f : HashFront} (hf : f.Valid) {rest : List Char}
    (hrest : NotInFront isWordChar rest) : f.Longest (f.text ++ rest) := by
  refine ⟨hf, List.prefix_append .., ?_⟩
  rintro g hg ⟨rest', hrest'⟩
  have hlevel := (agree hf hg hrest'.symm).2.2.2
  have hcut := congrArg (List.takeWhile isWordChar) hlevel
  rw [takeWhile_run_append (isWord_iff.1 hf.level).2 hrest,
    List.takeWhile_append_of_pos (isWord_iff.1 hg.level).2] at hcut
  rw [hcut, List.length_append]
  omega

/-- **There is one front with the longest level.** -/
theorem Longest.eq {f g : HashFront} {hash : List Char} (hf : f.Longest hash)
    (hg : g.Longest hash) : f = g := by
  obtain ⟨rest, rfl⟩ := hf.starts
  obtain ⟨rest', h⟩ := hg.starts
  -- Two fronts of one hash agree up to the level, and one level is part of the other.
  obtain ⟨hdate, hparam, hsurface, hlevel⟩ := agree hf.valid hg.valid h.symm
  have hlen : f.level.length = g.level.length :=
    Nat.le_antisymm (hg.longest f hf.valid hf.starts) (hf.longest g hg.valid hg.starts)
  have hlevel := (List.append_inj hlevel hlen).1
  cases f
  cases g
  subst hdate hparam hsurface hlevel
  rfl

/-- A hash that has a front has one that no word character follows. -/
theorem exists_notInFront {f : HashFront} {hash : List Char} (hf : f.Valid)
    (hstart : f.text <+: hash) :
    ∃ (g : HashFront) (rest : List Char), g.Valid ∧ hash = g.text ++ rest ∧
      NotInFront isWordChar rest := by
  obtain ⟨rest, rfl⟩ := hstart
  obtain ⟨hne, hall⟩ := isWord_iff.1 hf.level
  -- The level can be made longer by the word characters behind it.
  let more := rest.takeWhile isWordChar
  refine ⟨{ f with level := f.level ++ more }, rest.dropWhile isWordChar,
    ⟨hf.datePart, hf.param, hf.surface, isWord_iff.2 ⟨by simp [hne], fun c hc => ?_⟩⟩, ?_,
    notInFront_dropWhile _ _⟩
  · rcases List.mem_append.1 hc with hc | hc
    · exact hall c hc
    · exact List.mem_takeWhile_imp hc
  · simp [text, more]

end HashFront

namespace HashGrammar

/-- **The greedy reader takes the front that no word character follows,** and keeps
the selection it stands for. -/
theorem selection_eq_some_iff {cs rest : List Char} {s : Selection} :
    selection cs = some (s, rest) ↔
      ∃ f : HashFront, f.Valid ∧ f.Denotes s ∧ cs = f.text ++ rest ∧
        NotInFront isWordChar rest := by
  constructor
  · intro h
    simp only [selection, Option.bind_eq_bind, Option.bind_eq_some_iff] at h
    obtain ⟨⟨⟨date, hour⟩, cs₁⟩, h₁, cs₂, h₂, ⟨param, cs₃⟩, h₃, cs₄, h₄, ⟨surface, cs₅⟩, h₅,
      cs₆, h₆, ⟨level, cs₇⟩, h₇, hout⟩ := h
    -- The parts that were read make up a front, and the level ended where it had to.
    obtain ⟨text, hdate, rfl⟩ := datePart_eq_some_iff.1 h₁
    obtain rfl := afterLiteral_eq_some_iff.1 h₂
    obtain ⟨hparam, rfl, -⟩ := word_eq_some_iff.1 h₃
    obtain rfl := afterLiteral_eq_some_iff.1 h₄
    obtain ⟨hsurface, rfl, -⟩ := word_eq_some_iff.1 h₅
    obtain rfl := afterLiteral_eq_some_iff.1 h₆
    obtain ⟨hlevel, rfl, hend⟩ := word_eq_some_iff.1 h₇
    cases hout
    refine ⟨⟨text, param, surface, level⟩, ⟨hdate.isDatePart, hparam, hsurface, hlevel⟩,
      ⟨?_, String.toList_ofList, String.toList_ofList, String.toList_ofList⟩, ?_, hend⟩
    · simpa only [String.toList_ofList] using hdate
    · simp [HashFront.text]
  · rintro ⟨⟨text, param, surface, level⟩, hvalid, hdenotes, rfl, hend⟩
    have hword {w rest : List Char} (hw : isWord w = true) (hrest : NotInFront isWordChar rest) :
        word (w ++ rest) = some (w, rest) :=
      word_eq_some_iff.2 ⟨hw, rfl, hrest⟩
    have htext : HashFront.text ⟨text, param, surface, level⟩ ++ rest
        = text ++ '/' :: (param ++ '/' :: (surface ++ '/' :: (level ++ rest))) := by
      simp [HashFront.text]
    rw [htext]
    -- A slash ends the first two words, and the end of the front the third.
    simp only [selection, Option.bind_eq_bind, datePart_eq_some_iff.2 ⟨_, hdenotes.date, rfl⟩,
      Option.bind_some, afterLiteral_singleton, hword hvalid.param (HashFront.notInFront_slash _),
      hword hvalid.surface (HashFront.notInFront_slash _), hword hvalid.level hend]
    have hparam : s.param.toList = param := hdenotes.param
    have hsurface : s.surface.toList = surface := hdenotes.surface
    have hlevel : s.level.toList = level := hdenotes.level
    rw [← hparam, ← hsurface, ← hlevel]
    simp only [String.ofList_toList]

end HashGrammar

section

variable {P O : Type} [NameCollection P] [NameCollection O]

/-- No option changes the selection. -/
@[simp]
theorem Configuration.selection_apply (projections : P) (overlays : O) (c : Configuration)
    (o : HashOption) : (c.apply projections overlays o).selection = c.selection := by
  unfold Configuration.apply
  split
  · split <;> rfl
  · split <;> rfl
  · split <;> rfl
  · rfl

/-- No sequence of options changes the selection. -/
@[simp]
theorem Configuration.selection_foldl_apply (projections : P) (overlays : O)
    (c : Configuration) (os : List HashOption) :
    (os.foldl (Configuration.apply projections overlays) c).selection = c.selection := by
  induction os generalizing c with
  | nil => rfl
  | cons o os ih => rw [List.foldl_cons, ih, Configuration.selection_apply]

/-- A hash has a configuration exactly when it has a selection, which is kept. -/
theorem exists_readHash_iff (projections : P) (overlays : O) (topology hash : String)
    (s : Selection) :
    (∃ c, readHash projections overlays topology hash = some c ∧ c.selection = some s) ↔
      ∃ rest, HashGrammar.selection hash.toList = some (s, rest) := by
  unfold readHash
  constructor
  · rintro ⟨c, hc, hs⟩
    obtain ⟨⟨s', rest⟩, hread, rfl⟩ := Option.map_eq_some_iff.1 hc
    rw [Configuration.selection_foldl_apply] at hs
    exact ⟨rest, by rw [hread, ← Option.some.inj hs]⟩
  · rintro ⟨rest, hread⟩
    exact ⟨_, by rw [hread, Option.map_some], Configuration.selection_foldl_apply ..⟩

/-- **A hash matches exactly when it starts with a valid front.**  Whatever the
names that are known, the front with the longest level is then the only one of
that length, and the selection is the one it stands for: its words as they are,
month, day and hour padded to two, two and four digits of the same numbers. -/
theorem readHash_matches_front (projections : P) (overlays : O) (topology hash : String) :
    ((readHash projections overlays topology hash).isSome = true ↔
        ∃ f : HashFront, f.Valid ∧ f.text <+: hash.toList) ∧
      ∀ c, readHash projections overlays topology hash = some c →
        ∃ f : HashFront, f.Longest hash.toList ∧ (∀ g : HashFront, g.Longest hash.toList → g = f) ∧
          ∃ s, c.selection = some s ∧ f.Denotes s := by
  constructor
  · constructor
    · intro h
      obtain ⟨c, hc⟩ := Option.isSome_iff_exists.1 h
      obtain ⟨⟨s, rest⟩, hread, -⟩ := Option.map_eq_some_iff.1 hc
      obtain ⟨f, hf, -, htext, -⟩ := HashGrammar.selection_eq_some_iff.1 hread
      exact ⟨f, hf, rest, htext.symm⟩
    · rintro ⟨f, hf, hstart⟩
      -- The front may be too short, so it is the longest one that is read.
      obtain ⟨g, rest, hg, htext, hrest⟩ := HashFront.exists_notInFront hf hstart
      obtain ⟨s, hs⟩ := hg.exists_denotes
      obtain ⟨c, hc, -⟩ := (exists_readHash_iff projections overlays topology hash s).2
        ⟨rest, HashGrammar.selection_eq_some_iff.2 ⟨g, hg, hs, htext, hrest⟩⟩
      exact Option.isSome_iff_exists.2 ⟨c, hc⟩
  · intro c hc
    obtain ⟨⟨s, rest⟩, hread, -⟩ := Option.map_eq_some_iff.1 hc
    obtain ⟨f, hf, hs, htext, hrest⟩ := HashGrammar.selection_eq_some_iff.1 hread
    -- No front goes on behind the end of its level, so what was read is the longest.
    have hlongest : f.Longest hash.toList := htext ▸ HashFront.longest_of_notInFront hf hrest
    refine ⟨f, hlongest, fun g hg => hg.eq hlongest, s, ?_, hs⟩
    obtain ⟨c', hc', hsel⟩ :=
      (exists_readHash_iff projections overlays topology hash s).2 ⟨rest, hread⟩
    rwa [Option.some.inj (hc.symm.trans hc')]

/-- A hash whose month, day and hour are padded, with options after its front. -/
theorem exists_front_of_unpadded :
    let hash := "2013/1/4/900Z/wind/isobaric/1000hPa/overlay=off/grid=on"
    (∃ f : HashFront, f.Valid ∧ f.text <+: hash.toList) ∧
      ∃ f : HashFront, f.Longest hash.toList ∧
        f.Denotes ⟨"2013/01/04", "0900", "wind", "isobaric", "1000hPa"⟩ := by
  intro hash
  have hread : readHash ["orthographic"] ["off"] "/t.json" hash
      = some ⟨some ⟨"2013/01/04", "0900", "wind", "isobaric", "1000hPa"⟩, "orthographic", "",
          "off", true, "/t.json"⟩ := by decide
  have h := readHash_matches_front ["orthographic"] ["off"] "/t.json" hash
  obtain ⟨f, hf, -, s, hs, hdenotes⟩ := h.2 _ hread
  obtain rfl := Option.some.inj hs
  exact ⟨h.1.1 (by rw [hread]; rfl), f, hf, hdenotes⟩

end

end GlobeView

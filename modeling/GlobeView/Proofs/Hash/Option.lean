/-
# The forms of options

`HashOption.classify` tries three forms in turn and splits a segment differently
for each.  Seen from its result it is the inverse of writing an option down:

| option | written | well-formed when |
| --- | --- | --- |
| a projection | `name` or `name=orientation` | the name is a word, the orientation of its characters |
| an overlay | `overlay=name` | the name is a word that holds something other than digits |
| the grid | `grid=name` | the same |

A segment is classified as an option exactly when that option is well-formed and
the segment is what it is written as (`classify_eq_iff`), so no two options are
written alike, and a segment that is written for none is unrecognized.  `HasForm`
says the same character by character, and every segment has exactly one form
(`classify_forms`).
-/

import GlobeView.Hash.Option
import GlobeView.Proofs.Text.Runs

namespace GlobeView

/-- A word is not empty and made of word characters. -/
theorem isWord_iff {cs : List Char} :
    isWord cs = true ↔ cs ≠ [] ∧ ∀ c ∈ cs, isWordChar c = true := by
  simp [isWord]

/-- What comes after a literal is the rest behind it. -/
theorem afterLiteral_eq_some_iff {literal cs rest : List Char} :
    afterLiteral literal cs = some rest ↔ cs = literal ++ rest := by
  unfold afterLiteral
  constructor
  · intro h
    split at h
    · rename_i hstart
      obtain ⟨rest', rfl⟩ := List.isPrefixOf_iff_prefix.1 hstart
      simpa using h
    · cases h
  · rintro rfl
    simp

/-- A literal of one character is taken off the front. -/
theorem afterLiteral_singleton (c : Char) (cs : List Char) : afterLiteral [c] (c :: cs) = some cs :=
  afterLiteral_eq_some_iff.2 rfl

/-- No word holds an equals sign, so one ends the key before it. -/
theorem isWordChar_equals : isWordChar '=' = false := rfl

/-- No word holds a character that is in no word. -/
theorem not_mem_of_isWord {cs : List Char} {c : Char} (h : isWord cs = true)
    (hc : isWordChar c = false) : c ∉ cs := by
  intro hmem
  have := (isWord_iff.1 h).2 c hmem
  simp [hc] at this

/-- A character of words and of orientations is a digit. -/
theorem isDigit_of_isWordChar {c : Char} (hword : isWordChar c = true)
    (ho : isOrientationChar c = true) : c.isDigit = true := by
  simp only [isOrientationChar, Bool.or_eq_true, beq_iff_eq] at ho
  rcases ho with ((h | rfl) | rfl) | rfl
  · exact h
  · exact absurd hword (by decide)
  · exact absurd hword (by decide)
  · exact absurd hword (by decide)

/-- A text without a separator has no character that is one. -/
theorem bne_of_not_mem {separator : Char} {cs : List Char} (h : separator ∉ cs) :
    ∀ c ∈ cs, (c != separator) = true := by
  intro c hc
  refine bne_iff_ne.2 ?_
  rintro rfl
  exact h hc

/-- A text without the character is not split. -/
theorem atFirst_of_not_mem {separator : Char} {cs : List Char} (h : separator ∉ cs) :
    atFirst separator cs = (cs, none) := by
  have hall := bne_of_not_mem h
  have hspan : cs.span (· != separator) = (cs, []) := by
    rw [List.span_eq_takeWhile_dropWhile, List.takeWhile_eq_self_iff.2 hall,
      List.dropWhile_eq_nil_iff.2 hall]
  rw [atFirst, hspan]

/-- A text is split where the character stands for the first time. -/
theorem atFirst_append {separator : Char} {front rest : List Char} (h : separator ∉ front) :
    atFirst separator (front ++ separator :: rest) = (front, some rest) := by
  have hall := bne_of_not_mem h
  have hrest : NotInFront (· != separator) (separator :: rest) := notInFront_cons.2 (by simp)
  have hspan : (front ++ separator :: rest).span (· != separator)
      = (front, separator :: rest) := by
    rw [List.span_eq_takeWhile_dropWhile, takeWhile_run_append hall hrest,
      dropWhile_run_append hall hrest]
  rw [atFirst, hspan]

/-- Every text either lacks the character or is split at it. -/
theorem not_mem_or_eq_append (separator : Char) (cs : List Char) :
    separator ∉ cs ∨ ∃ front rest, separator ∉ front ∧ cs = front ++ separator :: rest := by
  by_cases h : separator ∈ cs
  · obtain ⟨front, rest, heq, hfront⟩ := List.eq_append_cons_of_mem h
    exact .inr ⟨front, rest, hfront, heq⟩
  · exact .inl h

namespace HashOption

/-- What an option is written as. -/
def text : HashOption → List Char
  | projection name none => name.toList
  | projection name (some orientation) => name.toList ++ '=' :: orientation.toList
  | overlay name => "overlay=".toList ++ name.toList
  | grid name => "grid=".toList ++ name.toList
  | unrecognized => []

/-- A projection without orientation is written as its name. -/
@[simp]
theorem text_projection_none (name : String) : (projection name none).text = name.toList :=
  rfl

/-- A projection with an orientation is written with an equals sign between the two. -/
@[simp]
theorem text_projection_some (name orientation : String) :
    (projection name (some orientation)).text = name.toList ++ '=' :: orientation.toList :=
  rfl

/-- An overlay is written behind its key. -/
@[simp]
theorem text_overlay (name : String) :
    (overlay name).text = "overlay=".toList ++ name.toList :=
  rfl

/-- A grid option is written behind its key. -/
@[simp]
theorem text_grid (name : String) : (grid name).text = "grid=".toList ++ name.toList :=
  rfl

/-- A word that no form of a projection takes for its orientation. -/
def IsName (name : String) : Prop :=
  isWord name.toList = true ∧ ∃ c ∈ name.toList, c.isDigit = false

/-- The option is the reading of some segment. -/
def WellFormed : HashOption → Prop
  | projection name orientation =>
    isWord name.toList = true ∧
      ∀ v ∈ orientation, ∀ c ∈ v.toList, isOrientationChar c = true
  | overlay name => IsName name
  | grid name => IsName name
  | unrecognized => False

/-- **The form of a projection takes exactly the texts of projections.** -/
theorem projection?_eq_some_iff {cs : List Char} {o : HashOption} :
    projection? cs = some o ↔
      ∃ name orientation, o = projection name orientation ∧ o.WellFormed ∧ cs = o.text := by
  constructor
  · intro h
    -- The text is split at the first equals sign, if it has one.
    rcases not_mem_or_eq_append '=' cs with hcs | ⟨front, rest, hfront, rfl⟩
    · rw [projection?, atFirst_of_not_mem hcs] at h
      simp only [Option.all_none, Bool.and_true] at h
      split at h
      · rename_i hword
        cases h
        refine ⟨String.ofList cs, none, rfl, ⟨?_, ?_⟩, ?_⟩
        · simpa using hword
        · simp
        · exact String.toList_ofList.symm
      · cases h
    · rw [projection?, atFirst_append hfront] at h
      simp only [Option.all_some, Bool.and_eq_true, List.all_eq_true] at h
      split at h
      · rename_i hboth
        cases h
        refine ⟨String.ofList front, some (String.ofList rest), rfl, ⟨?_, ?_⟩, ?_⟩
        · simpa using hboth.1
        · simpa using hboth.2
        · simp
      · cases h
  · rintro ⟨name, orientation, rfl, ⟨hword, ho⟩, rfl⟩
    -- A name holds no equals sign, so the split finds it again.
    have hname := not_mem_of_isWord hword isWordChar_equals
    cases orientation with
    | none => simp [projection?, atFirst_of_not_mem hname, hword]
    | some v =>
      have hall : v.toList.all isOrientationChar = true :=
        List.all_eq_true.2 (ho v rfl)
      simp [projection?, atFirst_append hname, hword, hall]

/-- Behind a literal a word is read when there is nothing else. -/
theorem wordAfter_eq_some_iff {literal cs : List Char} {name : String} :
    wordAfter literal cs = some name ↔
      isWord name.toList = true ∧ cs = literal ++ name.toList := by
  unfold wordAfter
  constructor
  · intro h
    obtain ⟨rest, hrest, hname⟩ := Option.bind_eq_some_iff.1 h
    obtain rfl := afterLiteral_eq_some_iff.1 hrest
    split at hname
    · rename_i hword
      cases hname
      exact ⟨by simpa using hword, by simp⟩
    · cases hname
  · rintro ⟨hword, rfl⟩
    rw [afterLiteral_eq_some_iff.2 rfl, Option.bind_some, if_pos hword, String.ofList_toList]

/-- **A word behind an equals sign is taken for an orientation only when it is a number.** -/
theorem projection?_eq_none_iff {key : List Char} (hkey : isWord key = true) {name : String}
    (hname : isWord name.toList = true) :
    projection? (key ++ '=' :: name.toList) = none ↔ IsName name := by
  have hsplit : atFirst '=' (key ++ '=' :: name.toList) = (key, some name.toList) :=
    atFirst_append (not_mem_of_isWord hkey isWordChar_equals)
  -- A word is no orientation when one of its characters is none, which is no digit then.
  have hiff : IsName name ↔ name.toList.all isOrientationChar = false := by
    rw [IsName, and_iff_right hname, List.all_eq_false]
    refine exists_congr ?_
    intro c
    refine and_congr_right ?_
    intro hc
    have hword := (isWord_iff.1 hname).2 c hc
    constructor
    · intro hdigit ho
      simp [isDigit_of_isWordChar hword ho] at hdigit
    · intro ho
      refine Bool.eq_false_iff.2 fun hdigit => ho ?_
      simp [isOrientationChar, hdigit]
  rw [hiff, projection?, hsplit]
  simp [hkey]

/-- **A segment is classified as an option exactly when the option is well-formed
and the segment is what it is written as.** -/
theorem classify_eq_iff {cs : List Char} {o : HashOption} (ho : o ≠ unrecognized) :
    classify cs = o ↔ o.WellFormed ∧ cs = o.text := by
  have hoverlay : isWord "overlay".toList = true := rfl
  have hgrid : isWord "grid".toList = true := rfl
  constructor
  · intro h
    unfold classify at h
    -- In the order in which the forms are tried; the first that is read is the one.
    cases hp : projection? cs with
    | some o' =>
      rw [hp, Option.some_or, Option.getD_some] at h
      obtain ⟨_, _, -, hwf, htext⟩ := projection?_eq_some_iff.1 hp
      exact h ▸ ⟨hwf, htext⟩
    | none =>
      rw [hp, Option.none_or] at h
      cases hover : wordAfter "overlay=".toList cs with
      | some name =>
        rw [hover, Option.map_some, Option.some_or, Option.getD_some] at h
        obtain ⟨hword, rfl⟩ := wordAfter_eq_some_iff.1 hover
        exact h ▸ ⟨(projection?_eq_none_iff hoverlay hword).1 hp, rfl⟩
      | none =>
        rw [hover, Option.map_none, Option.none_or] at h
        cases hg : wordAfter "grid=".toList cs with
        | some name =>
          rw [hg, Option.map_some, Option.getD_some] at h
          obtain ⟨hword, rfl⟩ := wordAfter_eq_some_iff.1 hg
          exact h ▸ ⟨(projection?_eq_none_iff hgrid hword).1 hp, rfl⟩
        | none =>
          rw [hg, Option.map_none, Option.getD_none] at h
          exact absurd h.symm ho
  · rintro ⟨hwf, rfl⟩
    cases o with
    | projection name orientation =>
      rw [classify, projection?_eq_some_iff.2 ⟨name, orientation, rfl, hwf, rfl⟩,
        Option.some_or, Option.getD_some]
    | overlay name =>
      -- The name is no number, so it is not taken for an orientation.
      have hp : projection? (overlay name).text = none :=
        (projection?_eq_none_iff hoverlay hwf.1).2 hwf
      have hover : wordAfter "overlay=".toList (overlay name).text = some name :=
        wordAfter_eq_some_iff.2 ⟨hwf.1, rfl⟩
      rw [classify, hp, hover, Option.none_or, Option.map_some, Option.some_or, Option.getD_some]
    | grid name =>
      have hp : projection? (grid name).text = none :=
        (projection?_eq_none_iff hgrid hwf.1).2 hwf
      have hover : wordAfter "overlay=".toList (grid name).text = none := by
        refine Option.eq_none_iff_forall_not_mem.2 ?_
        intro x hx
        have htext := (wordAfter_eq_some_iff.1 hx).2
        exact absurd (List.cons.inj htext).1 (by decide)
      have hg : wordAfter "grid=".toList (grid name).text = some name :=
        wordAfter_eq_some_iff.2 ⟨hwf.1, rfl⟩
      rw [classify, hp, hover, hg, Option.none_or, Option.map_none, Option.none_or,
        Option.map_some, Option.getD_some]
    | unrecognized => exact absurd rfl ho

end HashOption

/-! ### Forms -/

/-- The character is in `0` to `9`. -/
def InNumbers (c : Char) : Prop :=
  '0' ≤ c ∧ c ≤ '9'

/-- The character is in `A` to `Z`, `a` to `z` or `0` to `9`, or is an underscore. -/
def InWords (c : Char) : Prop :=
  ('A' ≤ c ∧ c ≤ 'Z') ∨ ('a' ≤ c ∧ c ≤ 'z') ∨ InNumbers c ∨ c = '_'

/-- The character is in `0` to `9`, or is a hyphen, a point or a comma. -/
def InOrientations (c : Char) : Prop :=
  InNumbers c ∨ c = '-' ∨ c = '.' ∨ c = ','

/-- The digits are the characters from 0 to 9. -/
theorem isDigit_iff {c : Char} : c.isDigit = true ↔ InNumbers c := by
  simp [Char.isDigit, InNumbers, Char.le_def]

/-- Word characters are the letters from A to Z, capital or small, digits and underscores. -/
theorem isWordChar_iff {c : Char} : isWordChar c = true ↔ InWords c := by
  have hupper : c.isUpper = true ↔ 'A' ≤ c ∧ c ≤ 'Z' := decide_eq_true_iff
  have hlower : c.isLower = true ↔ 'a' ≤ c ∧ c ≤ 'z' :=
    Bool.and_eq_true_iff.trans (and_congr decide_eq_true_iff decide_eq_true_iff)
  have halpha : c.isAlpha = true ↔ c.isUpper = true ∨ c.isLower = true := Bool.or_eq_true_iff
  simp [isWordChar, Char.isAlphanum, halpha, hupper, hlower, isDigit_iff, InWords, or_assoc]

/-- Orientations are written with digits, commas, points and hyphens. -/
theorem isOrientationChar_iff {c : Char} : isOrientationChar c = true ↔ InOrientations c := by
  simp [isOrientationChar, isDigit_iff, InOrientations, or_assoc]

/-- One character at least, all of them of words. -/
def IsWordText (s : String) : Prop :=
  s ≠ "" ∧ ∀ c ∈ s.toList, InWords c

/-- A word is a text of word characters that is not empty. -/
theorem isWord_toList_iff {s : String} : isWord s.toList = true ↔ IsWordText s := by
  simp only [isWord_iff, isWordChar_iff, IsWordText, ne_eq, String.toList_eq_nil_iff]

namespace HashOption

/-- The forms of segments, stated without splitting anything.  A segment is unrecognized
when it has none of the others. -/
def HasForm (s : String) : HashOption → Prop
  | projection name none => s = name ∧ IsWordText name
  | projection name (some orientation) =>
    s = name ++ "=" ++ orientation ∧ IsWordText name ∧ ∀ c ∈ orientation.toList, InOrientations c
  | overlay name =>
    s = "overlay=" ++ name ∧ IsWordText name ∧ ∃ c ∈ name.toList, ¬ InNumbers c
  | grid name => s = "grid=" ++ name ∧ IsWordText name ∧ ∃ c ∈ name.toList, ¬ InNumbers c
  | unrecognized =>
    ¬ IsWordText s ∧
      (∀ name orientation : String, s = name ++ "=" ++ orientation → IsWordText name →
        ∃ c ∈ orientation.toList, ¬ InOrientations c) ∧
      (∀ name : String, s = "overlay=" ++ name → IsWordText name →
        ∀ c ∈ name.toList, InNumbers c) ∧
      ∀ name : String, s = "grid=" ++ name → IsWordText name → ∀ c ∈ name.toList, InNumbers c

/-- The name of a projection is a word that is no number. -/
theorem isName_iff {name : String} :
    IsName name ↔ IsWordText name ∧ ∃ c ∈ name.toList, ¬ InNumbers c := by
  simp only [IsName, isWord_toList_iff, ← Bool.not_eq_true, isDigit_iff]

/-- A segment has the form of an option when it is the text of that option. -/
theorem hasForm_iff {s : String} {o : HashOption} (ho : o ≠ unrecognized) :
    HasForm s o ↔ o.WellFormed ∧ s.toList = o.text := by
  cases o with
  | projection name orientation =>
    cases orientation with
    | none => simp [HasForm, WellFormed, isWord_toList_iff, ← String.toList_inj, and_comm]
    | some v =>
      -- The two character classes are the same.
      have hv : (∀ w ∈ some v, ∀ c ∈ w.toList, isOrientationChar c = true) ↔
          ∀ c ∈ v.toList, InOrientations c := by simp [isOrientationChar_iff]
      simp only [HasForm, WellFormed, hv, isWord_toList_iff, ← String.toList_inj,
        String.toList_append]
      simp [and_comm]
  | overlay name => simp [HasForm, WellFormed, isName_iff, ← String.toList_inj, and_comm]
  | grid name => simp [HasForm, WellFormed, isName_iff, ← String.toList_inj, and_comm]
  | unrecognized => exact absurd rfl ho

/-- A segment is unrecognized when it has no other form. -/
theorem hasForm_unrecognized_iff {s : String} :
    HasForm s unrecognized ↔ ∀ o, o ≠ unrecognized → ¬ HasForm s o := by
  constructor
  · rintro ⟨hword, horiented, hoverlay, hgrid⟩ o ho h
    cases o with
    | projection name orientation =>
      cases orientation with
      | none =>
        obtain ⟨rfl, hname⟩ := h
        exact hword hname
      | some v =>
        obtain ⟨hs, hname, hall⟩ := h
        -- Behind the first equals sign there is a character that no orientation has.
        obtain ⟨c, hc, hnot⟩ := horiented name v hs hname
        exact hnot (hall c hc)
    | overlay name =>
      obtain ⟨hs, hname, c, hc, hnot⟩ := h
      exact hnot (hoverlay name hs hname c hc)
    | grid name =>
      obtain ⟨hs, hname, c, hc, hnot⟩ := h
      exact hnot (hgrid name hs hname c hc)
    | unrecognized => exact ho rfl
  · intro h
    -- Each of the four conditions rules out one form.
    refine ⟨fun hword => h (projection s none) nofun ⟨rfl, hword⟩, ?_, ?_, ?_⟩
    · intro name v hs hname
      by_contra hall
      push Not at hall
      exact h (projection name (some v)) nofun ⟨hs, hname, hall⟩
    · intro name hs hname c hc
      by_contra hnot
      exact h (overlay name) nofun ⟨hs, hname, c, hc, hnot⟩
    · intro name hs hname c hc
      by_contra hnot
      exact h (grid name) nofun ⟨hs, hname, c, hc, hnot⟩

/-- **Every segment has one form and no other, and is classified by it.**  Segments that are
classified alike are the same segment, unless they are unrecognized. -/
theorem classify_forms (s : String) :
    (∀ o, classify s.toList = o ↔ HasForm s o) ∧
      (∃! o, HasForm s o) ∧
      ∀ s' : String, classify s'.toList = classify s.toList →
        classify s.toList ≠ unrecognized → s' = s := by
  -- A form that was recognized tells the text, so each is the form of one text only.
  have hrecognized {o : HashOption} (ho : o ≠ unrecognized) :
      classify s.toList = o ↔ HasForm s o := by
    rw [hasForm_iff ho, classify_eq_iff ho]
  have hall (o : HashOption) : classify s.toList = o ↔ HasForm s o := by
    by_cases ho : o = unrecognized
    · subst ho
      rw [hasForm_unrecognized_iff]
      constructor
      · intro h o ho hform
        exact ho ((hrecognized ho).2 hform ▸ h)
      · intro h
        by_contra hne
        exact h _ hne ((hrecognized hne).1 rfl)
    · exact hrecognized ho
  refine ⟨hall, ⟨classify s.toList, (hall _).1 rfl, fun o ho => ((hall o).2 ho).symm⟩, ?_⟩
  intro s' heq hne
  -- A recognized segment is the text of its option.
  obtain ⟨-, htext⟩ := (classify_eq_iff hne).1 rfl
  obtain ⟨-, htext'⟩ := (classify_eq_iff hne).1 heq
  exact String.toList_inj.1 (htext'.trans htext.symm)

/-- Digits and a letter behind `overlay=` are an overlay, and no other segment is this one. -/
theorem classify_forms_overlay :
    HasForm "overlay=10m" (overlay "10m") ∧
      classify "overlay=10m".toList = overlay "10m" ∧
      ∀ s' : String, classify s'.toList = overlay "10m" → s' = "overlay=10m" := by
  have hform : HasForm "overlay=10m" (overlay "10m") := by
    refine ⟨by decide, ⟨by decide, ?_⟩, 'm', by decide, ?_⟩
    · exact fun c hc => isWordChar_iff.1 ((isWord_iff.1 (by decide)).2 c hc)
    · exact fun hm => absurd (isDigit_iff.2 hm) (by decide)
  obtain ⟨hall, -, honly⟩ := classify_forms "overlay=10m"
  have hread := (hall _).2 hform
  rw [hread] at honly
  exact ⟨hform, hread, fun s' hs' => honly s' hs' nofun⟩

/-- Digits alone are an orientation, whatever the name before them. -/
example : classify "overlay=123".toList = projection "overlay" (some "123") := by decide

end HashOption
end GlobeView

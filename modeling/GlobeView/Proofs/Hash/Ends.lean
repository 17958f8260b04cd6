/-
# Where hashes end

A hash counts up to the end of its first line, and without a slash after the level
only up to there.  The line is cut nowhere but in the list of options.  Wherever
else a hash may stop, the character that ends the line stops it as well:

| the text stops | what the next character would have to be |
| --- | --- |
| in `current` or in a run of digits | a letter of it, or a digit |
| before a separator | `/` or `Z` |
| in a word | a character of words |

All these are characters of words or slashes, and so are all characters of a front
(`HashFront.Valid.mem_text`).  A character of another kind is therefore in no front: a
text has the same front with it and what follows it as without, and only what comes
after the level gets longer (`HashGrammar.selection_append`).
-/

import GlobeView.Proofs.Hash.Front

namespace GlobeView

namespace HashGrammar

/-- Digits are characters of words. -/
theorem isWordChar_of_isDigit {c : Char} (h : c.isDigit = true) : isWordChar c = true := by
  simp [isWordChar, Char.isAlphanum, h]

/-- Characters that date parts consist of. -/
theorem IsDatePart.mem {text : List Char} (h : IsDatePart text) {c : Char} (hc : c ∈ text) :
    isWordChar c = true ∨ c = '/' := by
  cases h with
  | current => exact .inl (List.all_eq_true.1 (by decide : currentDate.toList.all isWordChar) c hc)
  | dated hyear hmonth hday hhour =>
    simp only [datedText, List.mem_append, List.mem_cons, List.not_mem_nil, or_false] at hc
    -- The parts of a date from left to right, with a slash after each but the last.
    rcases hc with hc | rfl | hc | rfl | hc | rfl | hc | rfl
    · exact .inl (isWordChar_of_isDigit (hyear.isDigit c hc))
    · exact .inr rfl
    · exact .inl (isWordChar_of_isDigit (hmonth.isDigit c hc))
    · exact .inr rfl
    · exact .inl (isWordChar_of_isDigit (hday.isDigit c hc))
    · exact .inr rfl
    · exact .inl (isWordChar_of_isDigit (hhour.isDigit c hc))
    · exact .inl rfl

end HashGrammar

/-- Characters that fronts consist of. -/
theorem HashFront.Valid.mem_text {f : HashFront} (h : f.Valid) {c : Char} (hc : c ∈ f.text) :
    isWordChar c = true ∨ c = '/' := by
  simp only [HashFront.text, List.mem_append, List.mem_cons] at hc
  rcases hc with hc | rfl | hc | rfl | hc | rfl | hc
  · exact h.datePart.mem hc
  · exact .inr rfl
  · exact .inl ((isWord_iff.1 h.param).2 c hc)
  · exact .inr rfl
  · exact .inl ((isWord_iff.1 h.surface).2 c hc)
  · exact .inr rfl
  · exact .inl ((isWord_iff.1 h.level).2 c hc)

/-- A front that does not hold a character ends before it. -/
theorem prefix_of_prefix_append_cons {front cs rest : List Char} {c : Char} (hc : c ∉ front)
    (h : front <+: cs ++ c :: rest) : front <+: cs := by
  have hwith : cs ++ [c] <+: cs ++ c :: rest := ⟨rest, by simp⟩
  rcases List.prefix_or_prefix_of_prefix h hwith with h | h
  · rcases List.prefix_concat_iff.1 h with rfl | h
    · simp at hc
    · exact h
  · exact absurd (h.mem (by simp)) hc

namespace HashGrammar

/-- **A character that is in no front leaves the selection as it is,** and goes with what
comes after the level. -/
theorem selection_append (cs rest : List Char) {c : Char} (hword : isWordChar c = false)
    (hslash : c ≠ '/') :
    selection (cs ++ c :: rest)
      = (selection cs).map fun (s, after) => (s, after ++ c :: rest) := by
  have hend {after : List Char} (h : NotInFront isWordChar after) :
      NotInFront isWordChar (after ++ c :: rest) := by
    cases after with
    | nil => exact notInFront_cons.2 hword
    | cons d after => exact notInFront_cons.2 (notInFront_cons.1 h)
  cases hcs : selection cs with
  | some read =>
    obtain ⟨s, after⟩ := read
    obtain ⟨f, hf, hs, rfl, hafter⟩ := selection_eq_some_iff.1 hcs
    exact selection_eq_some_iff.2 ⟨f, hf, hs, by simp, hend hafter⟩
  | none =>
    refine Option.eq_none_iff_forall_not_mem.2 ?_
    rintro ⟨s, after⟩ hread
    obtain ⟨f, hf, -, htext, -⟩ := selection_eq_some_iff.1 hread
    -- A front is made of word characters and slashes, so `c` stands behind it.
    have hmem : c ∉ f.text := by
      intro hc
      rcases hf.mem_text hc with h | h
      · rw [hword] at h
        cases h
      · exact hslash h
    have hstart : f.text <+: cs := prefix_of_prefix_append_cons hmem ⟨after, htext.symm⟩
    -- so the shorter text has a front as well, and a selection
    obtain ⟨g, after', hg, hcs', hafter'⟩ := HashFront.exists_notInFront hf hstart
    obtain ⟨s', hs'⟩ := hg.exists_denotes
    rw [selection_eq_some_iff.2 ⟨g, hg, hs', hcs', hafter'⟩] at hcs
    cases hcs

/-- Without a slash after the level there are no segments. -/
theorem segments_cons_of_ne {c : Char} (h : c ≠ '/') (rest : List Char) :
    segments (c :: rest) = [] := by
  have hnone : afterLiteral ['/'] (c :: rest) = none := by
    refine Option.eq_none_iff_forall_not_mem.2 ?_
    intro cs hcs
    exact h (List.cons.inj (afterLiteral_eq_some_iff.1 hcs)).1
  rw [segments, hnone]

/-- **The segments are those of the line.** -/
theorem segments_append (after rest : List Char) {c : Char} (hend : isLineEnd c = true) :
    segments (after ++ c :: rest) = segments after := by
  have hslash : c ≠ '/' := by
    rintro rfl
    exact absurd hend (by decide)
  cases after with
  | nil => exact segments_cons_of_ne hslash rest
  | cons d after =>
    by_cases hd : d = '/'
    · -- Behind a slash the segments go on up to the first line end.
      subst hd
      have hcut : (after ++ c :: rest).takeWhile (fun c => !isLineEnd c)
          = after.takeWhile fun c => !isLineEnd c := by
        have hstop : NotInFront (fun c => !isLineEnd c) (c :: rest) :=
          notInFront_cons.2 (by simp [hend])
        have hspan := span_append_of_notInFront hstop after
        simp only [List.span_eq_takeWhile_dropWhile] at hspan
        exact (Prod.ext_iff.1 hspan).1
      rw [List.cons_append, segments, segments, afterLiteral_singleton, afterLiteral_singleton]
      dsimp only
      rw [hcut]
    · rw [List.cons_append, segments_cons_of_ne hd, segments_cons_of_ne hd]

/-- No character that ends a line is in a front. -/
theorem not_isWordChar_of_isLineEnd {c : Char} (h : isLineEnd c = true) :
    isWordChar c = false ∧ c ≠ '/' := by
  simp only [isLineEnd_iff, List.mem_cons, List.not_mem_nil, or_false] at h
  rcases h with rfl | rfl | rfl | rfl
  all_goals decide

end HashGrammar

open HashGrammar

section

variable {P O : Type} [NameCollection P] [NameCollection O] (projections : P) (overlays : O)
  (topology : String)

/-- The end of a line and what follows it are not read. -/
theorem readHash_append_lineEnd (hash rest : String) {c : Char} (hc : isLineEnd c = true) :
    readHash projections overlays topology (hash ++ String.singleton c ++ rest)
      = readHash projections overlays topology hash := by
  have htext : (hash ++ String.singleton c ++ rest).toList = hash.toList ++ c :: rest.toList := by
    simp
  obtain ⟨hword, hslash⟩ := not_isWordChar_of_isLineEnd hc
  unfold readHash
  rw [htext, selection_append hash.toList rest.toList hword hslash, Option.map_map]
  simp only [Function.comp_def, segments_append _ _ hc]

/-- What follows a level without a slash is not read. -/
theorem readHash_append_of_front {f : HashFront} {hash : String} (hf : f.Valid)
    (hhash : hash.toList = f.text) (rest : String) {c : Char} (hslash : c ≠ '/')
    (hword : isWordChar c = false) :
    readHash projections overlays topology (hash ++ String.singleton c ++ rest)
      = readHash projections overlays topology hash := by
  have htext : (hash ++ String.singleton c ++ rest).toList = hash.toList ++ c :: rest.toList := by
    simp
  obtain ⟨s, hs⟩ := hf.exists_denotes
  -- The front takes up the whole hash, and `c` cannot make its level longer.
  have hread : selection hash.toList = some (s, []) :=
    selection_eq_some_iff.2 ⟨f, hf, hs, by rw [hhash, List.append_nil], nofun⟩
  have hnone : segments (c :: rest.toList) = segments [] := segments_cons_of_ne hslash _
  unfold readHash
  rw [htext, selection_append _ _ hword hslash, hread]
  simp only [Option.map_some, List.nil_append, hnone]

/-- The first line of a hash. -/
def firstLine (hash : String) : List Char :=
  hash.toList.takeWhile fun c => !isLineEnd c

/-- A hash is read as its first line is. -/
theorem readHash_firstLine (hash : String) :
    readHash projections overlays topology (String.ofList (firstLine hash))
      = readHash projections overlays topology hash := by
  have hsplit : firstLine hash ++ hash.toList.dropWhile (fun c => !isLineEnd c) = hash.toList :=
    List.takeWhile_append_dropWhile
  have hhead := List.head?_dropWhile_not (fun c => !isLineEnd c) hash.toList
  -- There is no line end at all, or the text goes on behind the first.
  cases hrest : hash.toList.dropWhile fun c => !isLineEnd c with
  | nil =>
    rw [hrest, List.append_nil] at hsplit
    rw [hsplit, String.ofList_toList]
  | cons c rest =>
    rw [hrest] at hsplit hhead
    have hc : isLineEnd c = true := by simpa using hhead
    have hhash : hash
        = String.ofList (firstLine hash) ++ String.singleton c ++ String.ofList rest := by
      rw [← String.toList_inj, ← hsplit]
      simp
    conv_rhs => rw [hhash]
    exact (readHash_append_lineEnd projections overlays topology _ _ hc).symm

/-- **Nothing is read after the end of the first line, and nothing after a level that no slash
follows.**  So two hashes with one first line have the same configuration, or none. -/
theorem readHash_ends :
    (∀ (hash rest : String) (c : Char), c ∈ ['\n', '\r', '\u2028', '\u2029'] →
        readHash projections overlays topology (hash ++ String.singleton c ++ rest)
          = readHash projections overlays topology hash) ∧
      (∀ (f : HashFront) (hash rest : String) (c : Char), f.Valid → hash.toList = f.text →
        c ≠ '/' → ¬ InWords c →
          readHash projections overlays topology (hash ++ String.singleton c ++ rest)
            = readHash projections overlays topology hash) ∧
      ∀ hash hash' : String, firstLine hash = firstLine hash' →
        readHash projections overlays topology hash
          = readHash projections overlays topology hash' := by
  refine ⟨?_, ?_, ?_⟩
  · intro hash rest c hc
    exact readHash_append_lineEnd projections overlays topology hash rest (isLineEnd_iff.2 hc)
  · intro f hash rest c hf hhash hslash hwords
    refine readHash_append_of_front projections overlays topology hf hhash rest hslash ?_
    rwa [← Bool.not_eq_true, isWordChar_iff]
  · intro hash hash' h
    rw [← readHash_firstLine, h, readHash_firstLine]

end

/-- A line that ends in the options, one that ends in the date, and a level with a mark
after it: nothing that follows is read. -/
theorem readHash_ends_midway :
    let read := readHash ["waterman"] ["temp"] "/t.json"
    let hash := "current/wind/surface/level"
    (∃ c, read hash = some c ∧ c.projection = defaultProjection ∧
        read (hash ++ String.singleton '?' ++ "/waterman") = some c) ∧
      read (hash ++ "/grid=on" ++ String.singleton '\u2028' ++ "/waterman")
        = read (hash ++ "/grid=on") ∧
      read ("2013/1" ++ String.singleton '\n' ++ "/4/900Z/wind/surface/level") = none ∧
      read (hash ++ "\r/waterman") = read (hash ++ "\n") := by
  intro read hash
  have hread : read hash = some ⟨some ⟨currentDate, "", "wind", "surface", "level"⟩,
      defaultProjection, "", defaultOverlay, false, "/t.json"⟩ := by decide
  let f : HashFront := ⟨currentDate.toList, "wind".toList, "surface".toList, "level".toList⟩
  have hf : f.Valid := ⟨.current, rfl, rfl, rfl⟩
  have hmark : ¬ InWords '?' := fun h => absurd (isWordChar_iff.2 h) (by decide)
  obtain ⟨hline, hlevel, hsame⟩ := readHash_ends ["waterman"] ["temp"] "/t.json"
  refine ⟨⟨_, hread, rfl, ?_⟩, ?_, ?_, ?_⟩
  · rw [← hread]
    exact hlevel f hash "/waterman" '?' hf (by decide) (by decide) hmark
  · exact hline _ _ _ (by decide)
  · exact (hline "2013/1" _ _ (by decide)).trans (by decide)
  · exact hsame _ _ (by decide)

end GlobeView

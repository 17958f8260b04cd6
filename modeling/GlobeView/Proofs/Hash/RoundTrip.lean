/-
# Writing a configuration and reading it again

Reading a hash fills every field from a fixed class of texts.  The classes are
gathered in `Configuration.Canonical`:

| field | canonical when |
| --- | --- |
| date, hour | `current` and nothing, or four, two and two digits and an hour of four |
| param, surface, level | words |
| projection, orientation | the default and nothing, or a known word and orientation characters |
| overlay | the default, or a known word that is no number |
| topology | the topology that hashes are read with |

One option keeps the class (`Configuration.Canonical.apply`), so every hash that
matches gives a canonical configuration.  The other way round `toHash` leaves
out what the reader starts from and writes the rest in another order than it may
have been read in; each option it writes is classified as itself, none of them
undoes another, and the configuration comes back (`readHash_toHash`).
-/

import GlobeView.Proofs.Hash.Segments
import Mathlib.Tactic.TFAE

namespace GlobeView

/-! ### Canonical configurations -/

/-- A date and an hour as they are kept: `current`, or padded to four, two, two and
four digits. -/
def CanonicalDate (date hour : String) : Prop :=
  (date = currentDate ∧ hour = "") ∨
    ∃ year month day : List Char, DigitRun 4 4 year ∧ DigitRun 2 2 month ∧ DigitRun 2 2 day ∧
      date.toList = year ++ '/' :: (month ++ '/' :: day) ∧ DigitRun 4 4 hour.toList

/-- A selection that some hash has. -/
structure Selection.Canonical (s : Selection) : Prop where
  date : CanonicalDate s.date s.hour
  param : isWord s.param.toList = true
  surface : isWord s.surface.toList = true
  level : isWord s.level.toList = true

section

variable {P O : Type} [NameCollection P] [NameCollection O]

/-- A configuration that some hash has, for given names and a given topology. -/
structure Configuration.Canonical (projections : P) (overlays : O) (topology : String)
    (c : Configuration) : Prop where
  selection : ∃ s, c.selection = some s ∧ s.Canonical
  projection : (c.projection = defaultProjection ∧ c.orientation = "") ∨
    (isWord c.projection.toList = true ∧ NameCollection.contains projections c.projection = true ∧
      ∀ ch ∈ c.orientation.toList, isOrientationChar ch = true)
  overlay : c.overlayType = defaultOverlay ∨
    (HashOption.IsName c.overlayType ∧ NameCollection.contains overlays c.overlayType = true)
  topology : c.topology = topology

/-! ### Reading gives canonical configurations -/

/-- What a front stands for is canonical. -/
theorem HashFront.Denotes.canonical {f : HashFront} {s : Selection} (hs : f.Denotes s)
    (hf : f.Valid) : s.Canonical := by
  refine ⟨?_, hs.param ▸ hf.param, hs.surface ▸ hf.surface, hs.level ▸ hf.level⟩
  have hdate := hs.date
  generalize f.datePart = text at hdate
  generalize hd : s.date.toList = d at hdate
  generalize hh : s.hour.toList = h at hdate
  cases hdate with
  | current => exact .inl ⟨String.toList_inj.1 hd, String.toList_inj.1 hh⟩
  | dated hyear _ _ _ hmm hdd hhhhh =>
    exact .inr ⟨_, _, _, hyear, hmm.run, hdd.run, hd, hh ▸ hhhhh.run⟩

/-- The defaults of a canonical selection are canonical. -/
theorem Configuration.canonical_ofSelection (projections : P) (overlays : O) (topology : String)
    {s : Selection} (h : s.Canonical) :
    (ofSelection s topology).Canonical projections overlays topology :=
  ⟨⟨s, rfl, h⟩, .inl ⟨rfl, rfl⟩, .inl rfl, rfl⟩

/-- **One option keeps a configuration canonical.** -/
theorem Configuration.Canonical.apply {projections : P} {overlays : O} {topology : String}
    {c : Configuration} (hc : c.Canonical projections overlays topology) (segment : List Char) :
    (c.apply projections overlays (HashOption.classify segment)).Canonical projections overlays
      topology := by
  generalize ho : HashOption.classify segment = o
  -- An option that is well formed and known is canonical; any other changes nothing.
  cases o with
  | projection name orientation =>
    obtain ⟨⟨hword, hchars⟩, -⟩ := (HashOption.classify_eq_iff (by simp)).1 ho
    dsimp only [Configuration.apply]
    split
    · rename_i hknown
      refine ⟨hc.selection, .inr ⟨hword, hknown, ?_⟩, hc.overlay, hc.topology⟩
      intro ch hch
      cases orientation with
      | none => simp at hch
      | some v => exact hchars v rfl ch hch
    · exact hc
  | overlay name =>
    obtain ⟨hname, -⟩ := (HashOption.classify_eq_iff (by simp)).1 ho
    dsimp only [Configuration.apply]
    split
    · rename_i hknown
      refine ⟨hc.selection, hc.projection, ?_, hc.topology⟩
      -- The default overlay is canonical whether or not its name is known.
      rcases Bool.or_eq_true_iff.1 hknown with hknown | hdefault
      · exact .inr ⟨hname, hknown⟩
      · exact .inl (beq_iff_eq.1 hdefault)
    · exact hc
  | grid name =>
    dsimp only [Configuration.apply]
    split
    · exact ⟨hc.selection, hc.projection, hc.overlay, hc.topology⟩
    · exact hc
  | unrecognized => exact hc

/-- Segments keep a configuration canonical, however many there are. -/
theorem Configuration.Canonical.foldl_apply {projections : P} {overlays : O} {topology : String}
    {c : Configuration} (hc : c.Canonical projections overlays topology)
    (segments : List (List Char)) :
    ((segments.map HashOption.classify).foldl (Configuration.apply projections overlays)
      c).Canonical projections overlays topology := by
  induction segments generalizing c with
  | nil => exact hc
  | cons segment segments ih => exact ih (hc.apply segment)

/-- **Whatever hash is read, the configuration is canonical.** -/
theorem canonical_of_readHash {projections : P} {overlays : O} {topology hash : String}
    {c : Configuration} (h : readHash projections overlays topology hash = some c) :
    c.Canonical projections overlays topology := by
  obtain ⟨⟨s, rest⟩, hread, rfl⟩ := Option.map_eq_some_iff.1 h
  obtain ⟨f, hf, hs, -⟩ := HashGrammar.selection_eq_some_iff.1 hread
  exact (Configuration.canonical_ofSelection projections overlays topology
    (hs.canonical hf)).foldl_apply _

/-! ### Writing canonical configurations -/

/-- The texts that the hash of a selection starts with. -/
def Selection.front (s : Selection) : HashFront :=
  ⟨s.datePart.toList, s.param.toList, s.surface.toList, s.level.toList⟩

/-- A date that begins with four digits is not `current`. -/
theorem Selection.isCurrent_eq_false {s : Selection} {year rest : List Char}
    (hyear : DigitRun 4 4 year) (hdate : s.date.toList = year ++ rest) : s.isCurrent = false := by
  refine beq_eq_false_iff_ne.2 ?_
  intro heq
  have hnone : afterLiteral currentDate.toList (year ++ rest) = none :=
    HashGrammar.afterLiteral_currentDate_eq_none hyear
  rw [← hdate, heq] at hnone
  simp [afterLiteral] at hnone

/-- The date part that is written for a canonical date stands for that date. -/
theorem CanonicalDate.dateOf {s : Selection} (h : CanonicalDate s.date s.hour) :
    HashGrammar.DateOf s.datePart.toList s.date.toList s.hour.toList := by
  rcases h with ⟨hdate, hhour⟩ | ⟨year, month, day, hyear, hmonth, hday, hdate, hhour⟩
  · rw [Selection.datePart, Selection.isCurrent, hdate, hhour]
    exact .current
  · have hnot : s.isCurrent = false := Selection.isCurrent_eq_false hyear hdate
    -- A canonical date is padded already.
    have hself {width : Nat} {ds : List Char} (hrun : DigitRun width width ds) :
        HashGrammar.PaddedTo width ds ds := ⟨hrun, rfl⟩
    have htext : s.datePart.toList = HashGrammar.datedText year month day s.hour.toList := by
      simp [Selection.datePart, hnot, hdate, HashGrammar.datedText]
    rw [htext, hdate]
    refine .dated hyear ?_ ?_ ?_ ?_ ?_ ?_
    · exact hmonth.anti (by omega)
    · exact hday.anti (by omega)
    · exact hhour.anti (by omega)
    · exact hself hmonth
    · exact hself hday
    · exact hself hhour

/-- A canonical selection is written as a valid front. -/
theorem Selection.Canonical.valid_front {s : Selection} (h : s.Canonical) : s.front.Valid :=
  ⟨h.date.dateOf.isDatePart, h.param, h.surface, h.level⟩

/-- The front that a canonical selection is written as stands for that selection. -/
theorem Selection.Canonical.denotes_front {s : Selection} (h : s.Canonical) :
    s.front.Denotes s :=
  ⟨h.date.dateOf, rfl, rfl, rfl⟩

/-- The options of a hash that is written, in order. -/
def Configuration.options (c : Configuration) : List HashOption :=
  (if c.overlayType = defaultOverlay then [] else [.overlay c.overlayType])
    ++ .projection c.projection (if c.orientation = "" then none else some c.orientation)
      :: if c.showGridPoints then [.grid "on"] else []

/-- Keys are made of word characters and equals signs. -/
theorem mem_of_mem_key {key : List Char}
    (hkey : (key.all fun c => isWordChar c || c == '=') = true) {c : Char} (hc : c ∈ key) :
    isWordChar c = true ∨ c = '=' := by
  simpa using List.all_eq_true.1 hkey c hc

/-- Characters that options consist of. -/
theorem HashOption.WellFormed.mem_text {o : HashOption} (h : o.WellFormed) {c : Char}
    (hc : c ∈ o.text) : isWordChar c = true ∨ isOrientationChar c = true ∨ c = '=' := by
  -- The characters of the key, of the equals sign, and of what stands behind it.
  cases o with
  | projection name orientation =>
    cases orientation with
    | none => exact .inl ((isWord_iff.1 h.1).2 c hc)
    | some v =>
      rcases List.mem_append.1 hc with hc | hc
      · exact .inl ((isWord_iff.1 h.1).2 c hc)
      · rcases List.mem_cons.1 hc with rfl | hc
        · exact .inr (.inr rfl)
        · exact .inr (.inl (h.2 v rfl c hc))
  | overlay name =>
    rcases List.mem_append.1 hc with hc | hc
    · exact (mem_of_mem_key rfl hc).imp_right .inr
    · exact .inl ((isWord_iff.1 h.1).2 c hc)
  | grid name =>
    rcases List.mem_append.1 hc with hc | hc
    · exact (mem_of_mem_key rfl hc).imp_right .inr
    · exact .inl ((isWord_iff.1 h.1).2 c hc)
  | unrecognized => exact h.elim

/-- A well-formed option is not written as nothing. -/
theorem HashOption.WellFormed.text_ne_nil {o : HashOption} (h : o.WellFormed) : o.text ≠ [] := by
  cases o with
  | projection name orientation =>
    have hne := (isWord_iff.1 h.1).1
    cases orientation <;> simp [String.toList_eq_nil_iff.not.1 hne]
  | overlay name => exact List.cons_ne_nil _ _
  | grid name => exact List.cons_ne_nil _ _
  | unrecognized => exact h.elim

/-- No option holds a slash or the end of a line. -/
theorem not_lineEnd_of_mem_text {o : HashOption} (h : o.WellFormed) {c : Char}
    (hc : c ∈ o.text) : c ≠ '/' ∧ c ∉ ['\n', '\r', '\u2028', '\u2029'] := by
  have hslash : ¬ (isWordChar '/' = true ∨ isOrientationChar '/' = true ∨ '/' = '=') := by decide
  have hmem := h.mem_text hc
  constructor
  · rintro rfl
    exact hslash hmem
  · intro hend
    simp only [List.mem_cons, List.not_mem_nil, or_false] at hend
    rcases hend with rfl | rfl | rfl | rfl
    all_goals exact absurd hmem (by decide)

/-- **Written options are taken apart again.** -/
theorem HashGrammar.segments_flatMap_text {os : List HashOption} (h : ∀ o ∈ os, o.WellFormed) :
    segments (os.flatMap fun o => '/' :: o.text) = os.map HashOption.text := by
  cases os with
  | nil => rfl
  | cons o os =>
    have hsegments : ∀ s ∈ (o :: os).map HashOption.text, IsSegment s := by
      intro s hs c hc
      obtain ⟨o', ho', rfl⟩ := List.mem_map.1 hs
      exact not_lineEnd_of_mem_text (h o' ho') hc
    have hend : ∀ c, [].head? = some c → c ∈ ['\n', '\r', '\u2028', '\u2029'] :=
      fun _ hc => nomatch hc
    -- No option holds a slash or a line end, so the text is cut where it was joined.
    have hcut := (Segmented.some hsegments hend).segments_eq
    have hne : (o :: os).map HashOption.text ≠ [[]] := by
      simp [(h o List.mem_cons_self).text_ne_nil]
    rw [List.append_nil, ← List.map_cons, List.flatMap_map, if_neg hne] at hcut
    exact hcut

/-- A word is not empty. -/
theorem ne_empty_of_isWord {name : String} (h : isWord name.toList = true) : name ≠ "" :=
  fun heq => (isWord_iff.1 h).1 (heq ▸ rfl)

section

variable {projections : P} {overlays : O} {topology : String} {c : Configuration}

/-- The projection of a canonical configuration is a word, the default or a known one. -/
theorem Configuration.Canonical.isWord_projection
    (h : c.Canonical projections overlays topology) : isWord c.projection.toList = true := by
  rcases h.projection with ⟨hdefault, -⟩ | ⟨hword, -⟩
  · rw [hdefault]
    rfl
  · exact hword

/-- A canonical configuration has an overlay, the default at least. -/
theorem Configuration.Canonical.overlayType_ne_empty
    (h : c.Canonical projections overlays topology) : c.overlayType ≠ "" := by
  rcases h.overlay with hdefault | ⟨hname, -⟩
  · rw [hdefault]
    decide
  · exact ne_empty_of_isWord hname.1

/-- What `toHash` writes after the level are the options. -/
theorem Configuration.Canonical.map_toList_parts (h : c.Canonical projections overlays topology) :
    (c.overlayParts ++ c.projectionParts ++ c.gridParts).map String.toList
      = c.options.map HashOption.text := by
  -- Each part is left out when it says the default, and else is the text of an option.
  have hoverlay : c.overlayParts.map String.toList
      = (if c.overlayType = defaultOverlay then []
          else [HashOption.overlay c.overlayType]).map HashOption.text := by
    unfold overlayParts
    by_cases hdefault : c.overlayType = defaultOverlay
    · simp [hdefault]
    · simp [hdefault, h.overlayType_ne_empty]
  have hprojection : c.projectionParts.map String.toList = [(HashOption.projection c.projection
      (if c.orientation = "" then none else some c.orientation)).text] := by
    unfold projectionParts
    -- A name that is not empty is always written, the default included.
    rw [if_neg (ne_empty_of_isWord h.isWord_projection)]
    by_cases ho : c.orientation = ""
    · simp [ho]
    · simp [ho]
  have hgrid : c.gridParts.map String.toList
      = (if c.showGridPoints then [HashOption.grid "on"] else []).map HashOption.text := by
    unfold gridParts
    split <;> rfl
  simp only [options, List.map_append, List.map_cons, hoverlay, hprojection, hgrid]
  simp

/-- **Every option that is written is well-formed.** -/
theorem Configuration.Canonical.wellFormed_options
    (h : c.Canonical projections overlays topology) : ∀ o ∈ c.options, o.WellFormed := by
  intro o ho
  -- First the overlay, then the projection, and the grid.
  rcases List.mem_append.1 ho with ho | ho
  · split at ho
    · simp at ho
    · rename_i hne
      obtain rfl := List.mem_singleton.1 ho
      exact (h.overlay.resolve_left hne).1
  · rcases List.mem_cons.1 ho with rfl | ho
    · refine ⟨h.isWord_projection, ?_⟩
      intro v hv ch hch
      split at hv
      · cases hv
      · rename_i hne
        obtain rfl := Option.some.inj hv
        -- The default projection has no orientation, so this one is that of a known projection.
        rcases h.projection with ⟨-, hempty⟩ | ⟨-, -, hall⟩
        · exact absurd hempty hne
        · exact hall ch hch
    · split at ho
      · obtain rfl := List.mem_singleton.1 ho
        exact ⟨rfl, 'o', by decide, rfl⟩
      · simp at ho

/-- **The options lead from the defaults to the configuration they are written for.** -/
theorem Configuration.Canonical.foldl_options (h : c.Canonical projections overlays topology)
    {s : Selection} (hs : c.selection = some s) :
    c.options.foldl (Configuration.apply projections overlays) (ofSelection s topology) = c := by
  -- Each option sets its own part, starting from the default.
  have hoverlay (d : Configuration) (hd : d.overlayType = defaultOverlay) :
      (if c.overlayType = defaultOverlay then [] else [HashOption.overlay c.overlayType]).foldl
          (Configuration.apply projections overlays) d
        = { d with overlayType := c.overlayType } := by
    split
    · rename_i hdefault
      rw [hdefault, ← hd, List.foldl_nil]
    · rename_i hne
      rw [List.foldl_cons, List.foldl_nil, Configuration.apply, (h.overlay.resolve_left hne).2,
        Bool.true_or, if_pos rfl]
  have hprojection (d : Configuration)
      (hd : d.projection = defaultProjection ∧ d.orientation = "") :
      d.apply projections overlays (.projection c.projection
          (if c.orientation = "" then none else some c.orientation))
        = { d with projection := c.projection, orientation := c.orientation } := by
    have ho :
        (if c.orientation = "" then none else some c.orientation).getD "" = c.orientation := by
      split
      · rename_i hempty
        rw [hempty, Option.getD_none]
      · rw [Option.getD_some]
    rw [Configuration.apply, ho]
    split
    · rfl
    · rename_i hunknown
      -- An unknown projection is canonical only as the default, from which the fold starts.
      rcases h.projection with hdefault | ⟨-, hknown, -⟩
      · rw [hdefault.1, hdefault.2, ← hd.1, ← hd.2]
      · exact absurd hknown hunknown
  have hgrid (d : Configuration) (hd : d.showGridPoints = false) :
      (if c.showGridPoints then [HashOption.grid "on"] else []).foldl
        (Configuration.apply projections overlays) d
        = { d with showGridPoints := c.showGridPoints } := by
    cases hc : c.showGridPoints with
    | true => rfl
    | false =>
      cases d
      cases hd
      rfl
  rw [options, List.foldl_append, List.foldl_cons, hoverlay _ rfl, hprojection _ ⟨rfl, rfl⟩,
    hgrid _ rfl, ofSelection, ← hs, ← h.topology]

end

/-- **A canonical configuration is read back from the hash it is written as.** -/
theorem Configuration.Canonical.readHash_toHash {projections : P} {overlays : O}
    {topology : String} {c : Configuration} (h : c.Canonical projections overlays topology) :
    ∃ hash, c.toHash = some hash ∧ readHash projections overlays topology hash = some c := by
  obtain ⟨s, hs, hcanonical⟩ := h.selection
  let parts := c.overlayParts ++ c.projectionParts ++ c.gridParts
  let hash := "/".intercalate (s.datePart :: s.param :: s.surface :: s.level :: parts)
  have hwf := h.wellFormed_options
  have htext : hash.toList = s.front.text ++ c.options.flatMap fun o => '/' :: o.text := by
    have hparts : parts.map String.toList = c.options.map HashOption.text := h.map_toList_parts
    have hflat : (c.options.map HashOption.text).flatMap ('/' :: ·)
        = c.options.flatMap fun o => '/' :: o.text := List.flatMap_map ..
    rw [String.toList_intercalate, ← hflat, ← hparts]
    change ['/'].intercalate _ = _
    rw [List.map_cons, intercalate_cons]
    simp [HashFront.text, Selection.front]
  -- The level is followed by a slash, or by nothing at all.
  have hend : NotInFront isWordChar (c.options.flatMap fun o => '/' :: o.text) := by
    cases c.options with
    | nil => simp [NotInFront]
    | cons o os => exact notInFront_cons.2 rfl
  have hread := HashGrammar.selection_eq_some_iff.2
    ⟨s.front, hcanonical.valid_front, hcanonical.denotes_front, htext, hend⟩
  -- The segments are classified as the options that they were written from.
  have hclassify : (c.options.map HashOption.text).map HashOption.classify = c.options := by
    rw [List.map_map]
    refine (List.map_congr_left fun o ho => ?_).trans (List.map_id _)
    refine (HashOption.classify_eq_iff ?_).2 ⟨hwf o ho, rfl⟩
    rintro rfl
    exact hwf _ ho
  refine ⟨hash, ?_, ?_⟩
  · rw [toHash, hs]
    rfl
  · rw [readHash, hread, Option.map_some]
    simp only [HashGrammar.segments_flatMap_text hwf, hclassify, h.foldl_options hs]

/-- **A configuration comes from some hash exactly when its own hash gives it back,
and both exactly when it is canonical,** whatever names are known: also names
such as `overlay` or `grid`, and names that are numbers. -/
theorem canonical_tfae (projections : P) (overlays : O) (topology : String) (c : Configuration) :
    List.TFAE [
      ∃ hash, readHash projections overlays topology hash = some c,
      ∃ hash, c.toHash = some hash ∧ readHash projections overlays topology hash = some c,
      c.Canonical projections overlays topology] := by
  tfae_have 1 → 3 := fun ⟨_, h⟩ => canonical_of_readHash h
  tfae_have 3 → 2 := fun h => h.readHash_toHash
  tfae_have 2 → 1 := fun ⟨hash, _, h⟩ => ⟨hash, h⟩
  tfae_finish

end

end GlobeView

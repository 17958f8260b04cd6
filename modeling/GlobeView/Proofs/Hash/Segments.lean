/-
# The segments after a level

`HashGrammar.segments` cuts what follows the level of a hash into segments.
Seen from the segments, a hash goes on after its level in one of two ways:

| segments | what follows the level |
| --- | --- |
| none | nothing that could go on with the level, and no slash |
| one or more | every segment with a slash before it, then the end of the hash or of the line |

A segment holds neither a slash nor the end of a line, so the segments are found
again (`Segmented.segments_eq`), save that a lone empty segment is dropped, which
no configuration shows.  Every hash that matches has a front and segments
(`isSome_readHash_iff_followedBy`), and its configuration is what the segments
make of the selection of the front (`HashFront.FollowedBy.readHash_eq`).
-/

import GlobeView.Proofs.Hash.Front
import GlobeView.Proofs.Text.Pieces

namespace GlobeView
namespace HashGrammar

/-- The text holds neither a slash nor the end of a line. -/
def IsSegment (cs : List Char) : Prop :=
  ∀ c ∈ cs, c ≠ '/' ∧ c ∉ ['\n', '\r', '\u2028', '\u2029']

/-- How a hash with the given segments goes on after its level. -/
inductive Segmented : List (List Char) → List Char → Prop where
  | none {rest : List Char} (hword : NotInFront isWordChar rest)
      (hslash : NotInFront (· == '/') rest) : Segmented [] rest
  | some {segment : List Char} {segments : List (List Char)} {rest : List Char}
      (hsegments : ∀ s ∈ segment :: segments, IsSegment s)
      (hend : ∀ c, rest.head? = Option.some c → c ∈ ['\n', '\r', '\u2028', '\u2029']) :
      Segmented (segment :: segments) ((segment :: segments).flatMap ('/' :: ·) ++ rest)

/-- A level is not gone on with. -/
theorem Segmented.notInFront {segments : List (List Char)} {rest : List Char}
    (h : Segmented segments rest) : NotInFront isWordChar rest := by
  cases h with
  | none hword => exact hword
  | some => exact HashFront.notInFront_slash _

/-- **The segments are found again,** but for a lone one that is empty. -/
theorem Segmented.segments_eq {segments : List (List Char)} {rest : List Char}
    (h : Segmented segments rest) :
    HashGrammar.segments rest = if segments = [[]] then [] else segments := by
  cases h with
  | none _ hslash =>
    have hnone : afterLiteral ['/'] rest = Option.none := by
      refine Option.eq_none_iff_forall_not_mem.2 fun cs hcs => ?_
      rw [afterLiteral_eq_some_iff.1 hcs] at hslash
      exact absurd (notInFront_cons.1 hslash) (by decide)
    rw [HashGrammar.segments, hnone, if_neg (by simp)]
  | @some segment segments rest hsegments hend =>
    let line := segment ++ segments.flatMap ('/' :: ·)
    -- The line goes on to the end of the segments, because none of them has a line end.
    have hplain : ∀ c ∈ line, (!isLineEnd c) = true := by
      intro c hc
      rw [Bool.not_eq_true', ← Bool.not_eq_true, isLineEnd_iff]
      rcases List.mem_append.1 hc with hc | hc
      · exact (hsegments segment List.mem_cons_self c hc).2
      · obtain ⟨s, hs, hc⟩ := List.mem_flatMap.1 hc
        rcases List.mem_cons.1 hc with rfl | hc
        · decide
        · exact (hsegments s (List.mem_cons_of_mem segment hs) c hc).2
    have hstop : NotInFront (fun c => !isLineEnd c) rest := by
      intro c hc
      have hc := isLineEnd_iff.2 (hend c hc)
      simp [hc]
    have hcut : afterLiteral ['/'] ((segment :: segments).flatMap ('/' :: ·) ++ rest)
        = Option.some (line ++ rest) := afterLiteral_singleton '/' (line ++ rest)
    have hpieces : piecesAt '/' line = segment :: segments := by
      change piecesAt '/' (segment ++ segments.flatMap ('/' :: ·)) = _
      rw [← intercalate_cons]
      refine piecesAt_intercalate (List.cons_ne_nil _ _) ?_
      intro s hs hmem
      exact (hsegments s hs '/' hmem).1 rfl
    -- A single empty segment makes an empty line, which has no segments.
    have hempty : line.isEmpty = true ↔ segment :: segments = [[]] := by
      rw [List.isEmpty_iff, List.append_eq_nil_iff, List.cons_eq_cons]
      refine and_congr_right fun _ => ?_
      cases segments with
      | nil => simp
      | cons s segments => simp
    rw [HashGrammar.segments, hcut]
    dsimp only
    rw [takeWhile_run_append hplain hstop, hpieces]
    simp only [hempty]

/-- Whatever does not go on with the level is cut into segments. -/
theorem exists_segmented {rest : List Char} (h : NotInFront isWordChar rest) :
    ∃ segments, Segmented segments rest := by
  cases hcut : afterLiteral ['/'] rest with
  | none =>
    refine ⟨[], .none h ?_⟩
    intro c hc
    obtain ⟨cs, rfl⟩ := List.head?_eq_some_iff.1 (Option.mem_def.1 hc)
    refine beq_eq_false_iff_ne.2 ?_
    rintro rfl
    rw [afterLiteral_singleton] at hcut
    cases hcut
  | some cs =>
    obtain rfl := afterLiteral_eq_some_iff.1 hcut
    let line := cs.takeWhile fun c => !isLineEnd c
    have hjoin := intercalate_piecesAt '/' line
    cases hp : piecesAt '/' line with
    | nil => exact absurd hp (piecesAt_ne_nil '/' line)
    | cons segment segments =>
      rw [hp, intercalate_cons] at hjoin
      refine ⟨segment :: segments, ?_⟩
      -- The line is split at its slashes; joined again, it is what was there.
      have htext : ['/'] ++ cs = (segment :: segments).flatMap ('/' :: ·)
          ++ cs.dropWhile fun c => !isLineEnd c := by
        rw [List.singleton_append, List.flatMap_cons, List.cons_append, hjoin, List.cons_append,
          List.takeWhile_append_dropWhile]
      rw [htext]
      have hend : ∀ c, (cs.dropWhile fun c => !isLineEnd c).head? = Option.some c →
          c ∈ ['\n', '\r', '\u2028', '\u2029'] := by
        intro c hc
        have hstop := notInFront_dropWhile (fun c => !isLineEnd c) cs c hc
        exact isLineEnd_iff.1 (by simpa using hstop)
      refine .some ?_ hend
      intro s hs c hc
      -- Each character of a segment is one of the line, where no line end is left.
      have hline : c ∈ line := by
        rw [← hjoin]
        rcases List.mem_cons.1 hs with rfl | hs
        · exact List.mem_append_left _ hc
        · exact List.mem_append_right _
            (List.mem_flatMap.2 ⟨s, hs, List.mem_cons_of_mem '/' hc⟩)
      have hinside := List.mem_takeWhile_imp hline
      refine ⟨?_, fun hc => by simp [isLineEnd_iff.2 hc] at hinside⟩
      rintro rfl
      rw [← hp] at hs
      exact not_mem_of_mem_piecesAt hs hc

end HashGrammar

/-! ### Hashes with segments -/

/-- The hash is a valid front, and the segments follow its level. -/
structure HashFront.FollowedBy (f : HashFront) (segments : List (List Char))
    (hash : List Char) : Prop where
  valid : f.Valid
  segmented : ∃ rest, hash = f.text ++ rest ∧ HashGrammar.Segmented segments rest

section

variable {P O : Type} [NameCollection P] [NameCollection O]

/-- A lone empty segment, which is dropped, would have changed nothing. -/
theorem HashGrammar.Segmented.foldl_apply (projections : P) (overlays : O)
    {segments : List (List Char)} {rest : List Char} (h : Segmented segments rest)
    (c : Configuration) :
    ((HashGrammar.segments rest).map HashOption.classify).foldl
        (Configuration.apply projections overlays) c
      = (segments.map HashOption.classify).foldl (Configuration.apply projections overlays) c := by
  rw [h.segments_eq]
  split
  · -- An empty segment is unrecognized and changes nothing, so leaving it out does not matter.
    rename_i hempty
    rw [hempty]
    rfl
  · rfl

/-- **What is read is the selection of the front with all segments applied to it.** -/
theorem HashFront.FollowedBy.readHash_eq (projections : P) (overlays : O) (topology : String)
    {f : HashFront} {segments : List (List Char)} {hash : String}
    (h : f.FollowedBy segments hash.toList) {s : Selection} (hs : f.Denotes s) :
    readHash projections overlays topology hash
      = some ((segments.map HashOption.classify).foldl (Configuration.apply projections overlays)
          (.ofSelection s topology)) := by
  obtain ⟨rest, htext, hrest⟩ := h.segmented
  have hread : HashGrammar.selection hash.toList = some (s, rest) :=
    HashGrammar.selection_eq_some_iff.2 ⟨f, h.valid, hs, htext, hrest.notInFront⟩
  rw [readHash, hread, Option.map_some]
  exact congrArg some (hrest.foldl_apply projections overlays _)

/-- **A hash matches exactly when it is a front and segments.** -/
theorem isSome_readHash_iff_followedBy (projections : P) (overlays : O)
    (topology hash : String) :
    (readHash projections overlays topology hash).isSome = true ↔
      ∃ (f : HashFront) (segments : List (List Char)), f.FollowedBy segments hash.toList := by
  constructor
  · intro h
    obtain ⟨c, hc⟩ := Option.isSome_iff_exists.1 h
    obtain ⟨⟨s, rest⟩, hread, -⟩ := Option.map_eq_some_iff.1 hc
    obtain ⟨f, hf, -, htext, hrest⟩ := HashGrammar.selection_eq_some_iff.1 hread
    obtain ⟨segments, hsegments⟩ := HashGrammar.exists_segmented hrest
    exact ⟨f, segments, hf, rest, htext, hsegments⟩
  · rintro ⟨f, segments, h⟩
    obtain ⟨s, hs⟩ := h.valid.exists_denotes
    rw [h.readHash_eq projections overlays topology hs]
    rfl

end

end GlobeView

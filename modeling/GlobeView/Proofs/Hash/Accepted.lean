/-
# Accepted options

Options are applied from left to right, and each of them either sets its part of
the configuration or is ignored.  Without following the run, the parts are

| part | is that of |
| --- | --- |
| projection and orientation | the last projection whose name is known |
| overlay | the last overlay that is known or the default |
| grid | shown as soon as one option is `grid=on` |

and what the reader starts from where there is no such option
(`Configuration.foldl_apply_parts`).  An option that is ignored may therefore be
put in or left out anywhere, and neighbours may change places unless both set
the same part (`Rearranged.foldl_apply`); the grid is no exception, since all
that set it set it to the same.  `readHash_accepted` says all this of hashes.
-/

import GlobeView.Proofs.Hash.Fields
import GlobeView.Proofs.Hash.Segments
import Mathlib.Data.List.Induction
import Mathlib.Logic.Relation

namespace GlobeView

/-! ### The last of several -/

/-- `value` belongs to the last element that has a value, and is `start` if none has. -/
inductive LastOf {α β : Type} (accepted : α → Option β) (start : β) : List α → β → Prop where
  | none {xs : List α} (h : ∀ x ∈ xs, accepted x = Option.none) : LastOf accepted start xs start
  | some {before after : List α} {x : α} {value : β} (hx : accepted x = Option.some value)
      (hafter : ∀ y ∈ after, accepted y = Option.none) :
      LastOf accepted start (before ++ x :: after) value

/-- **Replacing from left to right ends with the last value.** -/
theorem lastOf_foldl {α β : Type} (accepted : α → Option β) (start : β) (xs : List α) :
    LastOf accepted start xs (xs.foldl (fun current x => (accepted x).getD current) start) := by
  -- From the end, since it is the last accepted element that counts.
  induction xs using List.reverseRecOn with
  | nil => exact .none (List.forall_mem_nil _)
  | append_singleton xs x ih =>
    rw [List.foldl_append, List.foldl_cons, List.foldl_nil]
    cases hx : accepted x with
    | some value => exact .some hx (List.forall_mem_nil _)
    | none =>
      have hlast : ∀ y ∈ [x], accepted y = none := List.forall_mem_singleton.2 hx
      generalize xs.foldl (fun current x => (accepted x).getD current) start = value at ih ⊢
      cases ih with
      | none h => exact .none (List.forall_mem_append.2 ⟨h, hlast⟩)
      | @some before after y _ hy hafter =>
        rw [List.append_assoc, List.cons_append]
        exact .some hy (List.forall_mem_append.2 ⟨hafter, hlast⟩)

section

variable {P O : Type} [NameCollection P] [NameCollection O]

/-! ### What an option sets -/

namespace HashOption

/-- Projection and orientation of a projection that is known. -/
def acceptedProjection (projections : P) : HashOption → Option (String × String)
  | projection name orientation =>
    if NameCollection.contains projections name then some (name, orientation.getD "") else none
  | _ => none

/-- The name of an overlay that is known, or the default. -/
def acceptedOverlay (overlays : O) : HashOption → Option String
  | overlay name =>
    if NameCollection.contains overlays name || name == defaultOverlay then some name else none
  | _ => none

/-- The option sets no part of a configuration. -/
structure Ignored (projections : P) (overlays : O) (o : HashOption) : Prop where
  projection : o.acceptedProjection projections = none
  overlay : o.acceptedOverlay overlays = none
  grid : o ≠ grid "on"

/-- An option leaves the projection as it is, unless it is an accepted projection. -/
theorem projectionAfter_eq (projections : P) (current : String × String) (o : HashOption) :
    projectionAfter projections current o = (o.acceptedProjection projections).getD current := by
  cases o with
  | projection name orientation =>
    dsimp only [projectionAfter, acceptedProjection]
    split <;> rfl
  | overlay name => rfl
  | grid name => rfl
  | unrecognized => rfl

/-- An option leaves the overlay as it is, unless it is an accepted overlay. -/
theorem overlayAfter_eq (overlays : O) (current : String) (o : HashOption) :
    overlayAfter overlays current o = (o.acceptedOverlay overlays).getD current := by
  cases o with
  | projection name orientation => rfl
  | overlay name =>
    dsimp only [overlayAfter, acceptedOverlay]
    split <;> rfl
  | grid name => rfl
  | unrecognized => rfl

/-- Once the grid is shown, it stays shown. -/
theorem gridAfter_eq (current : Bool) (o : HashOption) :
    gridAfter current o = (current || decide (o = grid "on")) := by
  cases o with
  | grid name =>
    dsimp only [gridAfter]
    by_cases h : name = "on" <;> simp [h]
  | projection name orientation => simp [gridAfter]
  | overlay name => simp [gridAfter]
  | unrecognized => simp [gridAfter]

end HashOption

/-! ### Runs of options -/

/-- The grid is shown once `grid=on` was among the options; no option hides it again. -/
theorem foldl_gridAfter (current : Bool) (os : List HashOption) :
    os.foldl gridAfter current = true ↔ current = true ∨ HashOption.grid "on" ∈ os := by
  induction os generalizing current with
  | nil => simp
  | cons o os ih =>
    rw [List.foldl_cons, ih, HashOption.gridAfter_eq, Bool.or_eq_true, decide_eq_true_iff,
      List.mem_cons, or_assoc, eq_comm (a := o)]

namespace Configuration

/-- **Every part is that of the last option that sets it.** -/
theorem foldl_apply_parts (projections : P) (overlays : O) (c : Configuration)
    (segments : List (List Char)) :
    let c' := (segments.map HashOption.classify).foldl (apply projections overlays) c
    LastOf (fun s => (HashOption.classify s).acceptedProjection projections)
        (c.projection, c.orientation) segments (c'.projection, c'.orientation) ∧
      LastOf (fun s => (HashOption.classify s).acceptedOverlay overlays)
        c.overlayType segments c'.overlayType ∧
      (c'.showGridPoints = true ↔
        c.showGridPoints = true ∨ ∃ s ∈ segments, HashOption.classify s = .grid "on") := by
  intro c'
  have hparts : c' = _ := foldl_apply_eq projections overlays c (segments.map HashOption.classify)
  rw [hparts]
  -- No part depends on the others, so each is folded by itself.
  refine ⟨?_, ?_, ?_⟩
  · dsimp only [withParts]
    simp only [List.foldl_map, HashOption.projectionAfter_eq]
    exact lastOf_foldl _ _ _
  · dsimp only [withParts]
    simp only [List.foldl_map, HashOption.overlayAfter_eq]
    exact lastOf_foldl _ _ _
  · dsimp only [withParts]
    rw [foldl_gridAfter, List.mem_map]

/-- An ignored option leaves every configuration as it is. -/
theorem apply_of_ignored {projections : P} {overlays : O} {o : HashOption}
    (h : o.Ignored projections overlays) (c : Configuration) :
    c.apply projections overlays o = c := by
  rw [apply_eq, HashOption.projectionAfter_eq, HashOption.overlayAfter_eq,
    HashOption.gridAfter_eq, h.projection, h.overlay, decide_eq_false h.grid, Bool.or_false]
  rfl

/-- Options that do not both set the projection, or both the overlay, commute. -/
theorem apply_comm {projections : P} {overlays : O} {o o' : HashOption}
    (hprojection : o.acceptedProjection projections = none ∨
      o'.acceptedProjection projections = none)
    (hoverlay : o.acceptedOverlay overlays = none ∨ o'.acceptedOverlay overlays = none)
    (c : Configuration) :
    (c.apply projections overlays o).apply projections overlays o'
      = (c.apply projections overlays o').apply projections overlays o := by
  -- Of two options at most one sets a part, so it does not matter which comes first.
  have hset {β : Type} {a b : Option β} (h : a = none ∨ b = none) (current : β) :
      b.getD (a.getD current) = a.getD (b.getD current) := by
    rcases h with rfl | rfl <;> rfl
  simp only [apply_eq, HashOption.projectionAfter_eq, HashOption.overlayAfter_eq,
    HashOption.gridAfter_eq, withParts, Prod.mk.eta, hset hprojection, hset hoverlay]
  rw [Bool.or_right_comm]

end Configuration

/-! ### Rearrangements -/

/-- One change of the segments of a hash: two neighbours change places that do not both
set the projection, or both the overlay, or a segment is put in that is ignored. -/
inductive Rearranged (projections : P) (overlays : O) :
    List (List Char) → List (List Char) → Prop where
  | swap (before after : List (List Char)) {s t : List Char}
      (hprojection : (HashOption.classify s).acceptedProjection projections = none ∨
        (HashOption.classify t).acceptedProjection projections = none)
      (hoverlay : (HashOption.classify s).acceptedOverlay overlays = none ∨
        (HashOption.classify t).acceptedOverlay overlays = none) :
      Rearranged projections overlays (before ++ s :: t :: after) (before ++ t :: s :: after)
  | insert (before after : List (List Char)) {s : List Char}
      (h : (HashOption.classify s).Ignored projections overlays) :
      Rearranged projections overlays (before ++ after) (before ++ s :: after)

/-- One change is without effect. -/
theorem Rearranged.foldl_apply {projections : P} {overlays : O}
    {segments segments' : List (List Char)} (h : Rearranged projections overlays segments segments')
    (c : Configuration) :
    (segments.map HashOption.classify).foldl (Configuration.apply projections overlays) c
      = (segments'.map HashOption.classify).foldl (Configuration.apply projections overlays) c := by
  -- What stands before and after the change is applied as it was.
  cases h with
  | swap before after hprojection hoverlay =>
    simp only [List.map_append, List.map_cons, List.foldl_append, List.foldl_cons]
    rw [Configuration.apply_comm hprojection hoverlay]
  | insert before after h =>
    simp only [List.map_append, List.map_cons, List.foldl_append, List.foldl_cons]
    rw [Configuration.apply_of_ignored h]

/-- **Any number of such changes, there and back, is without effect.** -/
theorem Rearranged.foldl_apply_of_eqvGen {projections : P} {overlays : O}
    {segments segments' : List (List Char)}
    (h : Relation.EqvGen (Rearranged projections overlays) segments segments')
    (c : Configuration) :
    (segments.map HashOption.classify).foldl (Configuration.apply projections overlays) c
      = (segments'.map HashOption.classify).foldl (Configuration.apply projections overlays) c := by
  induction h with
  | rel _ _ h => exact h.foldl_apply c
  | refl _ => rfl
  | symm _ _ _ ih => exact ih.symm
  | trans _ _ _ _ _ ih ih' => exact ih.trans ih'

/-! ### Hashes -/

/-- **A hash that matches is a front with segments, and each part of its configuration
is what the last segment says that is accepted for it:**

* projection and orientation, of the last projection that is known, the orientation
  empty where it gives none, and otherwise the default projection without orientation;
* the overlay, of the last one that is known or the default, and otherwise the default;
* the grid is shown exactly when some segment is `grid=on`.

Rearranging the segments behind the same front gives the same configuration, that is,
letting neighbours change places that are not both accepted projections or both
accepted overlays, and putting in or leaving out ignored segments. -/
theorem readHash_accepted (projections : P) (overlays : O) (topology hash : String) :
    ((readHash projections overlays topology hash).isSome = true ↔
        ∃ (f : HashFront) (segments : List (List Char)), f.FollowedBy segments hash.toList) ∧
      ∀ (f : HashFront) (segments : List (List Char)), f.FollowedBy segments hash.toList →
        ∃ c, readHash projections overlays topology hash = some c ∧
          LastOf (fun s => (HashOption.classify s).acceptedProjection projections)
            (defaultProjection, "") segments (c.projection, c.orientation) ∧
          LastOf (fun s => (HashOption.classify s).acceptedOverlay overlays)
            defaultOverlay segments c.overlayType ∧
          (c.showGridPoints = true ↔ ∃ s ∈ segments, HashOption.classify s = .grid "on") ∧
          ∀ (segments' : List (List Char)) (hash' : String),
            f.FollowedBy segments' hash'.toList →
            Relation.EqvGen (Rearranged projections overlays) segments segments' →
              readHash projections overlays topology hash' = some c := by
  refine ⟨isSome_readHash_iff_followedBy projections overlays topology hash, ?_⟩
  intro f segments h
  -- The front decides where reading starts, and the segments what becomes of it.
  obtain ⟨s, hs⟩ := h.valid.exists_denotes
  obtain ⟨hprojection, hoverlay, hgrid⟩ := Configuration.foldl_apply_parts projections overlays
    (.ofSelection s topology) segments
  have hshown : (Configuration.ofSelection s topology).showGridPoints = false := rfl
  refine ⟨_, h.readHash_eq projections overlays topology hs, hprojection, hoverlay, ?_, ?_⟩
  · rw [hgrid, hshown]
    simp
  · intro segments' hash' h' hchanges
    -- The same front stands for the same selection, from which both lists of segments start.
    rw [h'.readHash_eq projections overlays topology hs,
      Rearranged.foldl_apply_of_eqvGen hchanges]

end

/-- Two projections of which the later one counts, behind an overlay that changes place
with it, and a grid that a segment put in between does not hide. -/
theorem readHash_accepted_waterman :
    let projections := ["atlantis", "waterman"]
    let overlays := ["temp"]
    let hash := "current/wind/surface/level/atlantis=1,2/overlay=temp/waterman/grid=on"
    let hash' := "current/wind/surface/level/atlantis=1,2/waterman/overlay=temp/grid=on/grid=off"
    let f : HashFront :=
      ⟨currentDate.toList, "wind".toList, "surface".toList, "level".toList⟩
    let segments := ["atlantis=1,2", "overlay=temp", "waterman", "grid=on"].map String.toList
    let segments' :=
      ["atlantis=1,2", "waterman", "overlay=temp", "grid=on", "grid=off"].map String.toList
    let c : Configuration :=
      ⟨some ⟨currentDate, "", "wind", "surface", "level"⟩, "waterman", "", "temp", true, "/t.json"⟩
    f.FollowedBy segments hash.toList ∧ f.FollowedBy segments' hash'.toList ∧
      Relation.EqvGen (Rearranged projections overlays) segments segments' ∧
      readHash projections overlays "/t.json" hash = some c ∧
      readHash projections overlays "/t.json" hash' = some c := by
  intro projections overlays hash hash' f segments segments' c
  have hvalid : f.Valid := ⟨.current, rfl, rfl, rfl⟩
  have hend : ∀ c, [].head? = some c → c ∈ ['\n', '\r', '\u2028', '\u2029'] :=
    fun _ hc => nomatch hc
  have hplain : ∀ s ∈ segments, HashGrammar.IsSegment s := by
    simp [segments, HashGrammar.IsSegment]
  have hplain' : ∀ s ∈ segments', HashGrammar.IsSegment s := by
    simp [segments', HashGrammar.IsSegment]
  have h : f.FollowedBy segments hash.toList := ⟨hvalid, _, by decide, .some hplain hend⟩
  have h' : f.FollowedBy segments' hash'.toList := ⟨hvalid, _, by decide, .some hplain' hend⟩
  have hswap : Rearranged projections overlays segments
      (["atlantis=1,2", "waterman", "overlay=temp", "grid=on"].map String.toList) :=
    .swap ["atlantis=1,2".toList] ["grid=on".toList] (.inl (by decide)) (.inr (by decide))
  have hinsert : Rearranged projections overlays
      (["atlantis=1,2", "waterman", "overlay=temp", "grid=on"].map String.toList) segments' :=
    .insert (["atlantis=1,2", "waterman", "overlay=temp", "grid=on"].map String.toList) []
      ⟨by decide, by decide, by decide⟩
  have hchanges := (Relation.EqvGen.rel _ _ hswap).trans _ _ _ (.rel _ _ hinsert)
  obtain ⟨c', hread, -, -, -, hsame⟩ :=
    (readHash_accepted projections overlays "/t.json" hash).2 f segments h
  have hc : readHash projections overlays "/t.json" hash = some c := by decide
  obtain rfl : c' = c := Option.some.inj (hread.symm.trans hc)
  exact ⟨h, h', hchanges, hread, hsame segments' hash' h' hchanges⟩

end GlobeView

/-
# The search of a segmented scale

The search looks at the upper ends of the segments alone and takes the first
that the sample does not exceed.  It is right because the values do not
decrease: inside the domain there is one breakpoint below the sample whose
successor is not (`Through.exists_encloses`), every earlier segment ends below the
sample, and so the segment between these two is the one taken
(`Through.findIdx?_eq`).  Its ends are distinct, whatever values repeat elsewhere.

A sample that meets a breakpoint is at the upper end of the segment taken, where
the proportion is 1.  Of a run of equal values this is the first
(`Through.stop_eq_of_find?`).  There the ramp has reached its end exactly when the
differences of the channels fit in 32 bits (`Ramp.color_one_iff`); with one that
overflows, a release misses the color of the breakpoint, and a program with overflow
checks does not build the scale (`Through.construct_eq_iff`).
-/

import GlobeView.Proofs.Color.Ramp
import GlobeView.Scale.Segmented
import Mathlib.Data.List.Chain
import Mathlib.Order.Defs.LinearOrder

namespace GlobeView

open Exact

/-! ### Neighbours -/

section

variable {α : Type} {xs : List α} {a b : α} {i j : ℕ}

/-- Neighbours are members. -/
theorem mem_of_mem_neighbours (h : (a, b) ∈ neighbours xs) : a ∈ xs ∧ b ∈ xs :=
  ⟨(List.of_mem_zip h).1, List.mem_of_mem_tail (List.of_mem_zip h).2⟩

/-- Neighbours are the members at adjacent indices. -/
theorem getElem?_neighbours :
    (neighbours xs)[i]? = some (a, b) ↔ xs[i]? = some a ∧ xs[i + 1]? = some b := by
  rw [neighbours, List.getElem?_zip_eq_some, List.getElem?_tail]

/-- What holds along the list holds of neighbours. -/
theorem rel_next {r : α → α → Prop} (h : xs.IsChain r) (ha : xs[i]? = some a)
    (hb : xs[i + 1]? = some b) : r a b := by
  obtain ⟨hi, rfl⟩ := List.getElem?_eq_some_iff.1 hb
  obtain ⟨_, rfl⟩ := List.getElem?_eq_some_iff.1 ha
  exact List.isChain_iff_getElem.1 h i hi

/-- What holds of all neighbours holds along the list, and the other way round. -/
theorem isChain_iff_neighbours {r : α → α → Prop} :
    xs.IsChain r ↔ ∀ w ∈ neighbours xs, r w.1 w.2 := by
  constructor
  · rintro h ⟨a, b⟩ hw
    -- Neighbours stand at an index and the next one.
    obtain ⟨i, hi⟩ := List.mem_iff_getElem?.1 hw
    obtain ⟨ha, hb⟩ := getElem?_neighbours.1 hi
    exact rel_next h ha hb
  · intro h
    refine List.isChain_iff_getElem.2 fun i hi => ?_
    have hpair := getElem?_neighbours.2
      ⟨List.getElem?_eq_getElem (Nat.lt_of_succ_lt hi), List.getElem?_eq_getElem hi⟩
    exact h _ (List.mem_of_getElem? hpair)

/-- What holds along the list holds of any two members in order, if it is reflexive and
transitive. -/
theorem rel_of_isChain {β : Type} {f : α → β} {r : β → β → Prop} [Std.Refl r] [IsTrans β r]
    (h : xs.IsChain fun a b => r (f a) (f b)) (ha : xs[i]? = some a) (hb : xs[j]? = some b)
    (hij : i ≤ j) : r (f a) (f b) := by
  have hchain : (xs.map f).IsChain r := (List.isChain_map f).2 h
  have hpairwise := List.pairwise_iff_getElem.1 (List.isChain_iff_pairwise.1 hchain)
  obtain ⟨hi, rfl⟩ := List.getElem?_eq_some_iff.1 ha
  obtain ⟨hj, rfl⟩ := List.getElem?_eq_some_iff.1 hb
  rcases hij.eq_or_lt with rfl | hlt
  · exact Std.Refl.refl _
  · have hrel := hpairwise i j (by simpa using hi) (by simpa using hj) hlt
    simpa using hrel

end

namespace SegmentedScale

/-! ### Breakpoints -/

/-- The scale runs through the points, whose values are finite and do not decrease. -/
structure Through (points : List Breakpoint) (s : SegmentedScale) : Prop where
  first : points.head? = some s.first
  last : points.getLast? = some s.last
  segments : s.segments = (neighbours points).map segmentBetween
  finite : ∀ p ∈ points, p.value.isFinite = true
  ordered : ∀ w ∈ neighbours points, ¬ w.2.value < w.1.value

/-- **A scale that is built runs through its breakpoints.** -/
theorem through_of_build {points : List Breakpoint} {s : SegmentedScale}
    (h : build points = .ok s) : Through points s := by
  unfold build at h
  split at h
  · rename_i first second rest
    dsimp only at h
    split at h
    · cases h
    · rename_i hfinite
      split at h
      · cases h
      · rename_i hordered
        cases h
        -- Both searches have found nothing, so the values are finite and do not decrease.
        refine ⟨rfl, ?_, rfl, ?_, ?_⟩
        · simp [List.getLast?_eq_some_getLast]
        · intro p hp
          simpa using List.find?_eq_none.1 hfinite p hp
        · intro w hw
          simpa using List.find?_eq_none.1 hordered w hw
  · cases h

/-- A program that stops at differences that overflow builds the scale exactly when no two
adjacent breakpoints have one. -/
theorem Through.construct_eq_iff {points : List Breakpoint} {s : SegmentedScale}
    (h : Through points s) (hbuild : build points = .ok s) :
    construct .stops points = some (.ok s) ↔
      points.IsChain fun a b => Ramp.Fits ⟨a.color, b.color⟩ := by
  have hallowed : (∀ segment ∈ s.segments, segment.ramp.Allowed .stops) ↔
      ∀ w ∈ neighbours points, Ramp.Fits ⟨w.1.color, w.2.color⟩ := by
    rw [h.segments, List.forall_mem_map]
    exact forall₂_congr fun w hw => or_iff_right nofun
  rw [construct, hbuild, isChain_iff_neighbours, ← hallowed]
  exact Option.ite_none_right_eq_some.trans (and_iff_left rfl)

/-- The breakpoints `a`, at index `i`, and `b`, the next one, enclose the sample: it is above the
value of `a` and not above that of `b`. -/
structure Encloses (points : List Breakpoint) (p : Float) (i : ℕ) (a b : Breakpoint) : Prop where
  start : points[i]? = some a
  stop : points[i + 1]? = some b
  above : a.value < p
  reached : p ≤ b.value

section

variable {points : List Breakpoint} {s : SegmentedScale} {p q : Float} {i j : ℕ}
  {a b c d : Breakpoint}

/-- Breakpoints that enclose a sample are at some distance. -/
theorem Encloses.value_lt (h : Encloses points p i a b) : a.value < b.value := by
  obtain ⟨ha, -, hlow⟩ := lt_iff.1 h.above
  obtain ⟨-, hb, hhigh⟩ := le_iff.1 h.reached
  exact lt_iff.2 ⟨ha, hb, hlow.trans_le hhigh⟩

namespace Through

variable (h : Through points s)

include h

/-- The scale begins with the first of its points. -/
theorem getElem?_first : points[0]? = some s.first := by
  rw [← List.head?_eq_getElem?, h.first]

/-- The scale ends with the last of its points. -/
theorem getElem?_last : points[points.length - 1]? = some s.last := by
  rw [← List.getLast?_eq_getElem?, h.last]

/-- The value of every point is finite. -/
theorem finite_value (ha : points[i]? = some a) : a.value.isFinite = true :=
  h.finite a (List.mem_of_getElem? ha)

/-- **The values do not decrease** along the list. -/
theorem value_le (ha : points[i]? = some a) (hb : points[j]? = some b) (hij : i ≤ j) :
    toRat a.value ≤ toRat b.value := by
  have hchain : points.IsChain fun a b => toRat a.value ≤ toRat b.value := by
    refine isChain_iff_neighbours.2 fun w hw => not_lt.1 fun hlt => ?_
    obtain ⟨hp, hq⟩ := mem_of_mem_neighbours hw
    exact h.ordered w hw (lt_iff.2
      ⟨notNaN_of_isFinite (h.finite _ hq), notNaN_of_isFinite (h.finite _ hp), hlt⟩)
  exact rel_of_isChain (f := fun x : Breakpoint => toRat x.value) hchain ha hb hij

/-- Of two breakpoints, that with the smaller value comes first. -/
theorem index_lt (ha : points[i]? = some a) (hb : points[j]? = some b)
    (hlt : toRat a.value < toRat b.value) : i < j :=
  not_le.1 fun hle => hlt.not_ge (h.value_le hb ha hle)

/-- Samples in order are enclosed in order. -/
theorem index_le_of_encloses (hp : Encloses points p i a b) (hq : Encloses points q j c d)
    (hpq : p ≤ q) : i ≤ j := by
  have hlt : toRat a.value < toRat d.value :=
    ((lt_iff.1 hp.above).2.2.trans_le (le_iff.1 hpq).2.2).trans_le (le_iff.1 hq.reached).2.2
  exact Nat.lt_succ_iff.1 (h.index_lt hp.start hq.stop hlt)

/-- A sample is enclosed at one index only. -/
theorem index_unique (hi : Encloses points p i a b) (hj : Encloses points p j c d) : j = i := by
  obtain ⟨hp, -⟩ := le_iff.1 hi.reached
  have hpp : p ≤ p := le_iff.2 ⟨hp, hp, le_rfl⟩
  exact le_antisymm (h.index_le_of_encloses hj hi hpp) (h.index_le_of_encloses hi hj hpp)

/-- **Inside the domain every sample is enclosed:** before the first breakpoint that it does not
exceed, which is not the first of the list. -/
theorem exists_encloses (hp : p.isNaN = false) (hfirst : ¬ p ≤ s.first.value)
    (hlast : ¬ s.last.value ≤ p) : ∃ i a b, Encloses points p i a b := by
  have hnum {k : ℕ} {x : Breakpoint} (hx : points[k]? = some x) : x.value.isNaN = false :=
    notNaN_of_isFinite (h.finite_value hx)
  have hreached : p ≤ s.last.value := by
    refine le_iff.2 ⟨hp, hnum h.getElem?_last, not_lt.1 fun hlt => hlast ?_⟩
    exact le_iff.2 ⟨hnum h.getElem?_last, hp, hlt.le⟩
  -- The first breakpoint that the sample does not exceed ends the segment.
  obtain ⟨k, hk⟩ : ∃ k, points.findIdx? (fun x => p ≤ x.value) = some k := by
    refine Option.isSome_iff_exists.1 ?_
    rw [List.findIdx?_isSome, List.any_eq_true]
    exact ⟨s.last, List.mem_of_getElem? h.getElem?_last, decide_eq_true hreached⟩
  obtain ⟨hlen, hk, hbefore⟩ := List.findIdx?_eq_some_iff_getElem.1 hk
  -- It is not the first breakpoint, as the sample is above that, so there is one before it.
  cases k with
  | zero =>
    obtain ⟨_, heq⟩ := List.getElem?_eq_some_iff.1 h.getElem?_first
    rw [heq] at hk
    exact absurd (of_decide_eq_true hk) hfirst
  | succ i =>
    have ha : points[i]? = some points[i] := List.getElem?_eq_getElem (Nat.lt_of_succ_lt hlen)
    refine ⟨i, points[i], points[i + 1], ha, List.getElem?_eq_getElem hlen, ?_,
      of_decide_eq_true hk⟩
    refine lt_iff.2 ⟨hnum ha, hp, not_le.1 fun hle => hbefore i i.lt_succ_self ?_⟩
    exact decide_eq_true (le_iff.2 ⟨hp, hnum ha, hle⟩)

/-! ### The search -/

/-- The segments are those between neighbours. -/
theorem getElem?_segments {segment : Segment} :
    s.segments[i]? = some segment ↔
      ∃ a b, (points[i]? = some a ∧ points[i + 1]? = some b) ∧
        segmentBetween (a, b) = segment := by
  rw [h.segments, List.getElem?_map, Option.map_eq_some_iff]
  simp only [Prod.exists, getElem?_neighbours]

/-- **The search takes the segment that encloses the sample,** because the earlier ones end
below it. -/
theorem findIdx?_eq (hencloses : Encloses points p i a b) :
    s.segments.findIdx? (fun segment => p ≤ segment.high) = some i := by
  have hsegment := h.getElem?_segments.2 ⟨a, b, ⟨hencloses.start, hencloses.stop⟩, rfl⟩
  obtain ⟨hi, hsegment⟩ := List.getElem?_eq_some_iff.1 hsegment
  refine List.findIdx?_eq_some_iff_getElem.2 ⟨hi, ?_, fun k hk hreached => ?_⟩
  · rw [hsegment]
    exact decide_eq_true hencloses.reached
  · -- An earlier segment ends at or before the one that begins below the sample.
    obtain ⟨c, d, ⟨-, hd⟩, hearlier⟩ :=
      h.getElem?_segments.1 (List.getElem?_eq_getElem (hk.trans hi))
    rw [← hearlier] at hreached
    have hbelow := h.value_le hd hencloses.start hk
    have hle := (le_iff.1 (of_decide_eq_true hreached)).2.2
    exact ((hle.trans hbelow).trans_lt (lt_iff.1 hencloses.above).2.2).false

/-- **Inside the domain** the search finds the segment that encloses the sample, and its ramp
gives the color. -/
theorem color_eq_of_encloses (hencloses : Encloses points p i a b)
    (hfirst : ¬ p ≤ s.first.value) (hlast : ¬ s.last.value ≤ p) :
    s.segments.find? (fun segment => p ≤ segment.high) = some (segmentBetween (a, b)) ∧
      s.color p = Ramp.color ⟨a.color, b.color⟩ (proportion p a.value b.value) := by
  have hfind : s.segments.find? (fun segment => p ≤ segment.high)
      = some (segmentBetween (a, b)) := by
    rw [List.find?_eq_bind_findIdx?_getElem?, h.findIdx?_eq hencloses, Option.bind_some]
    exact h.getElem?_segments.2 ⟨a, b, ⟨hencloses.start, hencloses.stop⟩, rfl⟩
  refine ⟨hfind, funext fun alpha => ?_⟩
  rw [color, if_neg hfirst, if_neg hlast, segmentFor, hfind]
  rfl

/-- If the values have finite differences, the enclosing breakpoints are bounds with a width. -/
theorem spanned (hwidth : points.IsChain fun a b => (b.value - a.value).isFinite = true)
    (hencloses : Encloses points p i a b) : Spanned a.value b.value where
  finite_low := h.finite_value hencloses.start
  finite_high := h.finite_value hencloses.stop
  lt := (lt_iff.1 hencloses.value_lt).2.2
  width := rel_next (r := fun a b : Breakpoint => (b.value - a.value).isFinite = true) hwidth
    hencloses.start hencloses.stop

/-- A sample that meets breakpoints is enclosed below the first of them. -/
theorem stop_eq_of_find? (hencloses : Encloses points p i a b)
    (hc : points.find? (fun x => x.value == p) = some c) : b = c ∧ toRat p = toRat b.value := by
  obtain ⟨hmeets, m, hm, hc, hbefore⟩ := List.find?_eq_some_iff_getElem.1 hc
  obtain ⟨-, hp, heq⟩ := beq_iff.1 hmeets
  have hm' : points[m]? = some c := List.getElem?_eq_some_iff.2 ⟨hm, hc⟩
  have hlt : i < m := h.index_lt hencloses.start hm' (heq ▸ (lt_iff.1 hencloses.above).2.2)
  -- The values from `b` to `c` are between the sample and the sample.
  have hnext : toRat b.value = toRat p :=
    le_antisymm (heq ▸ h.value_le hencloses.stop hm' hlt) (le_iff.1 hencloses.reached).2.2
  have hmeets' : (b.value == p) = true :=
    beq_iff.2 ⟨notNaN_of_isFinite (h.finite_value hencloses.stop), hp, hnext⟩
  have hm_eq : i + 1 = m := by
    refine le_antisymm hlt (not_lt.1 fun hgt => ?_)
    have hnot := hbefore (i + 1) hgt
    obtain ⟨_, hb⟩ := List.getElem?_eq_some_iff.1 hencloses.stop
    rw [hb, hmeets'] at hnot
    cases hnot
  subst hm_eq
  exact ⟨Option.some.inj (hencloses.stop.symm.trans hm'), hnext.symm⟩

end Through

end

end SegmentedScale

end GlobeView

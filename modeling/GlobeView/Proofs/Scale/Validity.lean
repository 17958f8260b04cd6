/-
# Valid definitions

A definition is valid when its data say where every sample is, which is stated here
without the checks that find it out.

| definition | valid when | what is wrong first, if it is not |
| --- | --- | --- |
| `segmented` | two breakpoints at least | their number |
| | the values are finite | the first that is not |
| | no value is above a later one | the first above the next one |
| `sinebow`, `extendedSinebow` | no bounds, or finite bounds with `low < high` | the bounds |

The checks compare neighbours alone.  Finite values are in order as soon as neighbours
are (`SegmentedScale.pairwise_value_le_iff`); a NaN would be in order with whatever
stands beside it, and is looked for before.  So a definition is built exactly when it is
valid and fails otherwise with what is wrong first
(`ScaleDefinition.build_eq_error_iff`), and a set builds by name what it holds
(`ScaleSet.build_decided`).

With overflow checks the same comes of building, but for one thing: a valid
definition with adjacent channels too far apart stops the program
(`ScaleDefinition.construct_eq_none_iff`).
-/

import GlobeView.Proofs.Names
import GlobeView.Proofs.Scale.Segmented
import GlobeView.Scale.Set

namespace GlobeView

open Exact

/-! ### The first of the neighbours -/

section

variable {α : Type} {xs : List α} {a b : α}

/-- The first pair of neighbours is that of the first two points. -/
theorem neighbours_cons_cons (a b : α) (xs : List α) :
    neighbours (a :: b :: xs) = (a, b) :: neighbours (b :: xs) :=
  rfl

/-- Two neighbours stand between those before the second and those from it on. -/
theorem neighbours_append (before after : List α) (a b : α) :
    neighbours (before ++ a :: b :: after)
      = neighbours (before ++ [a]) ++ (a, b) :: neighbours (b :: after) := by
  induction before with
  | nil => rfl
  | cons x before ih =>
    cases before with
    | nil => rfl
    | cons y before =>
      simp only [List.cons_append, neighbours_cons_cons] at ih ⊢
      rw [ih]

/-- **The first neighbours with a property** are the last two of a beginning of the list. -/
theorem find?_neighbours_eq_some_iff {q : α × α → Bool} :
    (neighbours xs).find? q = some (a, b) ↔
      q (a, b) = true ∧ ∃ before after, xs = before ++ a :: b :: after ∧
        ∀ w ∈ neighbours (before ++ [a]), q w = false := by
  constructor
  · intro h
    refine ⟨List.find?_some h, ?_⟩
    induction xs with
    | nil => cases h
    | cons x xs ih =>
      -- A pair takes two elements, so the list is taken apart twice.
      cases xs with
      | nil => cases h
      | cons y xs =>
        rw [neighbours_cons_cons, List.find?_cons] at h
        split at h
        · cases h
          exact ⟨[], xs, rfl, nofun⟩
        · rename_i hxy
          -- The first pair fails, so the one that is found is further back.
          obtain ⟨before, after, heq, hbefore⟩ := ih h
          refine ⟨x :: before, after, by rw [heq, List.cons_append], ?_⟩
          cases before with
          | nil =>
            obtain ⟨rfl, -⟩ := List.cons.inj heq
            exact List.forall_mem_singleton.2 (by simpa using hxy)
          | cons z before =>
            obtain ⟨rfl, -⟩ := List.cons.inj heq
            exact List.forall_mem_cons.2 ⟨by simpa using hxy, hbefore⟩
  · rintro ⟨hq, before, after, rfl, hbefore⟩
    rw [neighbours_append, List.find?_append, List.find?_eq_none.2 (by simpa using hbefore),
      Option.none_or, List.find?_cons_of_pos hq]

end

namespace SegmentedScale

/-! ### Breakpoints -/

variable {points : List Breakpoint} {fault : ScaleFault}

/-- A scale runs through breakpoints when there are two at least, their values are finite
and none is above a later one. -/
structure ValidPoints (points : List Breakpoint) : Prop where
  count : 2 ≤ points.length
  finite : ∀ p ∈ points, p.value.isFinite = true
  ordered : points.Pairwise fun p q => p.value ≤ q.value

/-- What is wrong with breakpoints, and nothing else before it. -/
inductive FirstFault : List Breakpoint → ScaleFault → Prop where
  | tooFew {points : List Breakpoint} (hcount : points.length < 2) :
      FirstFault points (.tooFewBreakpoints points.length)
  | notFinite {before after : List Breakpoint} {p : Breakpoint}
      (hcount : 2 ≤ (before ++ p :: after).length)
      (hbefore : ∀ q ∈ before, q.value.isFinite = true) (hp : p.value.isFinite = false) :
      FirstFault (before ++ p :: after) (.notFinite p.value)
  | decreasing {before after : List Breakpoint} {p q : Breakpoint}
      (hfinite : ∀ r ∈ before ++ p :: q :: after, r.value.isFinite = true)
      (hbefore : (before ++ [p]).Pairwise fun r s => r.value ≤ s.value)
      (hdecrease : q.value < p.value) :
      FirstFault (before ++ p :: q :: after) (.decreasing q.value p.value)

/-- **Finite values are in order when neighbours are.** -/
theorem pairwise_value_le_iff (hfinite : ∀ p ∈ points, p.value.isFinite = true) :
    points.Pairwise (fun p q => p.value ≤ q.value) ↔
      ∀ w ∈ neighbours points, ¬ w.2.value < w.1.value := by
  have hle {w : Breakpoint × Breakpoint} (hw : w ∈ neighbours points) :
      w.1.value ≤ w.2.value ↔ ¬ w.2.value < w.1.value := by
    obtain ⟨hp, hq⟩ := mem_of_mem_neighbours hw
    have hp := notNaN_of_isFinite (hfinite _ hp)
    have hq := notNaN_of_isFinite (hfinite _ hq)
    rw [le_iff, lt_iff]
    simp only [hp, hq, true_and, not_lt]
  -- Order is transitive, so that of neighbours is that of all.
  have htrans : IsTrans Breakpoint fun p q => p.value ≤ q.value :=
    ⟨fun _ _ _ hpq hqr => Trans.trans hpq hqr⟩
  rw [← List.isChain_iff_pairwise, isChain_iff_neighbours]
  exact forall₂_congr fun w hw => hle hw

/-- With two breakpoints at least, the values decide. -/
theorem exists_build_eq (h : 2 ≤ points.length) :
    ∃ s, build points = match findNotFinite points with
      | some p => .error (.notFinite p.value)
      | none => match findDecrease points with
        | some (before, p) => .error (.decreasing p.value before.value)
        | none => .ok s := by
  match points, h with
  | first :: second :: rest, _ => exact ⟨_, rfl⟩

/-- The search finds nothing when all values are finite. -/
theorem findNotFinite_eq_none_iff :
    findNotFinite points = none ↔ ∀ p ∈ points, p.value.isFinite = true := by
  simp [findNotFinite]

/-- The fault that is reported is the first one in the order of the checks. -/
theorem build_of_firstFault (h : FirstFault points fault) : build points = .error fault := by
  cases h with
  | tooFew hcount =>
    match points, hcount with
    | [], _ => rfl
    | [_], _ => rfl
  | @notFinite before after p hcount hbefore hp =>
    obtain ⟨s, hs⟩ := exists_build_eq hcount
    -- Nothing before the value is infinite or NaN, so it is the first to be found.
    have hfind : findNotFinite (before ++ p :: after) = some p :=
      List.find?_eq_some_iff_append.2 ⟨by simp [hp], before, after, rfl, by simpa using hbefore⟩
    rw [hs, hfind]
  | @decreasing before after p q hfinite hbefore hdecrease =>
    have hcount : 2 ≤ (before ++ p :: q :: after).length := by
      simp only [List.length_append, List.length_cons]
      omega
    obtain ⟨s, hs⟩ := exists_build_eq hcount
    have hbefore := (pairwise_value_le_iff fun r hr =>
      hfinite r (by simp at hr ⊢; tauto)).1 hbefore
    have hfind : findDecrease (before ++ p :: q :: after) = some (p, q) :=
      find?_neighbours_eq_some_iff.2
        ⟨decide_eq_true hdecrease, before, after, rfl, fun w hw => decide_eq_false (hbefore w hw)⟩
    rw [hs, findNotFinite_eq_none_iff.2 hfinite, hfind]

/-- Points without a fault make a scale. -/
theorem exists_build_eq_ok (h : ValidPoints points) : ∃ s, build points = .ok s := by
  obtain ⟨s, hs⟩ := exists_build_eq h.count
  have hfind : findDecrease points = none := by
    refine List.find?_eq_none.2 ?_
    simpa using (pairwise_value_le_iff h.finite).1 h.ordered
  exact ⟨s, by rw [hs, findNotFinite_eq_none_iff.2 h.finite, hfind]⟩

/-- Where the program goes on, it has built what a release builds. -/
theorem eq_build_of_construct {o : Overflow} {result : Except ScaleFault SegmentedScale}
    (h : construct o points = some result) : result = build points := by
  unfold construct at h
  cases hbuild : build points with
  | error fault =>
    rw [hbuild] at h
    exact (Option.some.inj h).symm
  | ok s =>
    rw [hbuild] at h
    exact (Option.some.inj (Option.ite_none_right_eq_some.1 h).2).symm

/-- A release never stops. -/
theorem construct_wraps (points : List Breakpoint) :
    construct .wraps points = some (build points) := by
  unfold construct
  cases build points with
  | error fault => rfl
  | ok s => exact if_pos fun _ _ => .inl rfl

/-- The program stops at valid breakpoints with a difference that overflows. -/
theorem construct_eq_none_iff {o : Overflow} : construct o points = none ↔
    o = .stops ∧ (∃ s, build points = .ok s) ∧
      ¬ points.IsChain fun a b => Ramp.Fits ⟨a.color, b.color⟩ := by
  cases o with
  | wraps => simp [construct_wraps]
  | stops =>
    cases hbuild : build points with
    | error fault => simp [construct, hbuild]
    | ok s =>
      -- What is built goes on unless a difference that overflows stops it.
      rw [← (through_of_build hbuild).construct_eq_iff hbuild, construct, hbuild]
      simp

/-- Where nothing is wrong, the breakpoints are valid. -/
theorem validPoints_or_firstFault (points : List Breakpoint) :
    ValidPoints points ∨ ∃ fault, FirstFault points fault := by
  by_cases hcount : points.length < 2
  · exact .inr ⟨_, .tooFew hcount⟩
  rw [not_lt] at hcount
  cases hfinite : findNotFinite points with
  | some p =>
    obtain ⟨hp, before, after, rfl, hbefore⟩ := List.find?_eq_some_iff_append.1 hfinite
    exact .inr ⟨_, .notFinite hcount (by simpa using hbefore) (by simpa using hp)⟩
  | none =>
    have hfinite := findNotFinite_eq_none_iff.1 hfinite
    -- All values are finite here, so that their order is a total one.
    cases hordered : findDecrease points with
    | some w =>
      obtain ⟨p, q⟩ := w
      obtain ⟨hdecrease, before, after, rfl, hbefore⟩ := find?_neighbours_eq_some_iff.1 hordered
      refine .inr ⟨_, .decreasing hfinite ?_ (of_decide_eq_true hdecrease)⟩
      refine (pairwise_value_le_iff fun r hr => hfinite r (by simp at hr ⊢; tauto)).2 ?_
      exact fun w hw => of_decide_eq_false (hbefore w hw)
    | none =>
      refine .inl ⟨hcount, hfinite, (pairwise_value_le_iff hfinite).2 ?_⟩
      simpa using List.find?_eq_none.1 hordered

end SegmentedScale

/-! ### Definitions -/

/-- Finite bounds in order. -/
structure Bounds.Valid (b : Bounds) : Prop where
  finite_low : b.low.isFinite = true
  finite_high : b.high.isFinite = true
  lt : b.low < b.high

namespace ScaleDefinition

variable {trig : Trigonometry} {d : ScaleDefinition} {fault : ScaleFault}

/-- A scale can be built from the definition. -/
def Valid : ScaleDefinition → Prop
  | segmented _ points => SegmentedScale.ValidPoints points
  | sinebow bounds => ∀ b ∈ bounds, b.Valid
  | extendedSinebow bounds => ∀ b ∈ bounds, b.Valid

/-- What is wrong with a definition, and nothing else before it. -/
inductive FirstFault : ScaleDefinition → ScaleFault → Prop where
  | segmented {units : Option String} {points : List Breakpoint} {fault : ScaleFault}
      (h : SegmentedScale.FirstFault points fault) : FirstFault (segmented units points) fault
  | sinebow {b : Bounds} (h : ¬ b.Valid) : FirstFault (sinebow (some b)) (.bounds b.low b.high)
  | extendedSinebow {b : Bounds} (h : ¬ b.Valid) :
      FirstFault (extendedSinebow (some b)) (.bounds b.low b.high)

/-- Valid bounds pass the check unchanged. -/
theorem checkBounds_of_valid {b : Bounds} (h : b.Valid) : checkBounds b = .ok b := by
  rw [checkBounds, h.finite_low, h.finite_high, decide_eq_true h.lt]
  rfl

/-- Other bounds are refused, and named in the fault. -/
theorem checkBounds_of_not_valid {b : Bounds} (h : ¬ b.Valid) :
    checkBounds b = .error (.bounds b.low b.high) := by
  refine if_neg fun hchecks => h ?_
  simp only [Bool.and_eq_true, decide_eq_true_eq] at hchecks
  exact ⟨hchecks.1.1, hchecks.1.2, hchecks.2⟩

/-- A spectrum is built over valid bounds, and without bounds at all. -/
theorem exists_overBounds_eq_ok (spectrum : ColorScale) {bounds : Option Bounds}
    (h : ∀ b ∈ bounds, b.Valid) : ∃ scale, overBounds spectrum bounds = .ok scale := by
  cases bounds with
  | none => exact ⟨_, rfl⟩
  | some b => exact ⟨_, by rw [overBounds, checkBounds_of_valid (h b rfl)]; rfl⟩

/-- A spectrum is not built over other bounds. -/
theorem overBounds_of_not_valid (spectrum : ColorScale) {b : Bounds} (h : ¬ b.Valid) :
    overBounds spectrum (some b) = .error (.bounds b.low b.high) := by
  rw [overBounds, checkBounds_of_not_valid h]
  rfl

/-- Where bounds are not valid, there are some. -/
theorem valid_or_some (bounds : Option Bounds) :
    (∀ b ∈ bounds, b.Valid) ∨ ∃ b, bounds = some b ∧ ¬ b.Valid := by
  refine or_iff_not_imp_left.2 fun h => ?_
  push Not at h
  exact h

/-- A definition is refused for the first of its faults, whatever its kind. -/
theorem build_of_firstFault (trig : Trigonometry) (h : d.FirstFault fault) :
    d.build trig = .error fault := by
  cases h with
  | segmented h =>
    rw [build, SegmentedScale.build_of_firstFault h]
    rfl
  | sinebow h => exact overBounds_of_not_valid _ h
  | extendedSinebow h => exact overBounds_of_not_valid _ h

/-- A valid definition is built. -/
theorem exists_build_of_valid (trig : Trigonometry) (h : d.Valid) :
    ∃ scale, d.build trig = .ok scale := by
  cases d with
  | segmented units points =>
    obtain ⟨s, hs⟩ := SegmentedScale.exists_build_eq_ok h
    exact ⟨s.color, by rw [build, hs]; rfl⟩
  | sinebow bounds => exact exists_overBounds_eq_ok _ h
  | extendedSinebow bounds => exact exists_overBounds_eq_ok _ h

/-- A definition is valid, or has a first fault. -/
theorem valid_or_firstFault (d : ScaleDefinition) : d.Valid ∨ ∃ fault, d.FirstFault fault := by
  cases d with
  | segmented units points =>
    rcases SegmentedScale.validPoints_or_firstFault points with h | ⟨fault, h⟩
    · exact .inl h
    · exact .inr ⟨fault, .segmented h⟩
  | sinebow bounds =>
    rcases valid_or_some bounds with h | ⟨b, rfl, h⟩
    · exact .inl h
    · exact .inr ⟨_, .sinebow h⟩
  | extendedSinebow bounds =>
    rcases valid_or_some bounds with h | ⟨b, rfl, h⟩
    · exact .inl h
    · exact .inr ⟨_, .extendedSinebow h⟩

/-- **Building fails exactly with what is wrong first.** -/
theorem build_eq_error_iff : d.build trig = .error fault ↔ d.FirstFault fault := by
  refine ⟨fun h => ?_, build_of_firstFault trig⟩
  rcases d.valid_or_firstFault with hvalid | ⟨fault', hfault⟩
  · obtain ⟨scale, hscale⟩ := exists_build_of_valid trig hvalid
    rw [hscale] at h
    cases h
  · rw [build_of_firstFault trig hfault] at h
    cases h
    exact hfault

/-- **A definition is valid when nothing is wrong with it.** -/
theorem valid_iff : d.Valid ↔ ∀ fault, ¬ d.FirstFault fault := by
  constructor
  · intro h fault hfault
    obtain ⟨scale, hscale⟩ := exists_build_of_valid .native h
    rw [build_of_firstFault .native hfault] at hscale
    cases hscale
  · intro h
    exact d.valid_or_firstFault.resolve_right fun ⟨fault, hfault⟩ => h fault hfault

/-- The channels of adjacent breakpoints are near. -/
def Fits : ScaleDefinition → Prop
  | segmented _ points => points.IsChain fun a b => Ramp.Fits ⟨a.color, b.color⟩
  | sinebow _ => True
  | extendedSinebow _ => True

/-- Where the program goes on, it has built what a release builds. -/
theorem eq_build_of_construct {o : Overflow} {result : Except ScaleFault ColorScale}
    (h : d.construct o trig = some result) : result = d.build trig := by
  cases d with
  | segmented units points =>
    obtain ⟨built, hbuilt, rfl⟩ := Option.map_eq_some_iff.1 h
    rw [SegmentedScale.eq_build_of_construct hbuilt, build]
  | sinebow bounds => exact (Option.some.inj h).symm
  | extendedSinebow bounds => exact (Option.some.inj h).symm

/-- **The program stops at a valid definition with a difference that overflows,** if it is built
to stop there, and at no other. -/
theorem construct_eq_none_iff {o : Overflow} :
    d.construct o trig = none ↔ o = .stops ∧ d.Valid ∧ ¬ d.Fits := by
  cases d with
  | segmented units points =>
    -- Points that are built have no fault, so they are valid.
    have hvalid : (∃ s, SegmentedScale.build points = .ok s) ↔
        SegmentedScale.ValidPoints points := by
      refine ⟨fun ⟨s, hs⟩ => ?_, SegmentedScale.exists_build_eq_ok⟩
      refine (SegmentedScale.validPoints_or_firstFault points).resolve_right ?_
      rintro ⟨fault, hfault⟩
      rw [SegmentedScale.build_of_firstFault hfault] at hs
      cases hs
    -- Spectrums subtract no channels while they are built.
    rw [construct, Option.map_eq_none_iff, SegmentedScale.construct_eq_none_iff, hvalid]
    rfl
  | sinebow bounds => exact iff_of_false nofun fun ⟨_, _, h⟩ => h trivial
  | extendedSinebow bounds => exact iff_of_false nofun fun ⟨_, _, h⟩ => h trivial

end ScaleDefinition

/-! ### Sets -/

namespace ScaleSet

variable {set : ScaleSet} {trig : Trigonometry} {name : String} {d : ScaleDefinition}

/-- However the names of a set are listed, in order they are listed in one way. -/
theorem perm_names {keys : List String} (hnodup : keys.Nodup)
    (hkeys : ∀ key, key ∈ keys ↔ (set.get? key).isSome = true) :
    set.scales.names.Perm keys ∧ set.scales.names.Pairwise (· < ·) := by
  constructor
  · refine (List.perm_ext_iff_of_nodup set.scales.nodup_names hnodup).2 fun key => ?_
    rw [hkeys, get?, NameMap.isSome_get?_iff]
  · exact List.pairwise_map.2 set.scales.ordered

/-- A name that is not in the set is reported as missing. -/
theorem build_of_absent (trig : Trigonometry) (h : set.get? name = none) :
    set.build trig name = .error (set.missing name) := by
  rw [build, h]

/-- A name in the set is built from its definition, with the fault told as a failure. -/
theorem build_of_present (trig : Trigonometry) (h : set.get? name = some d) :
    set.build trig name = (d.build trig).mapError ScaleFault.toFailure := by
  rw [build, h]

/-- What is present fails with what is wrong first. -/
theorem build_eq_error_iff (h : set.get? name = some d) {failure : Failure} :
    set.build trig name = .error failure ↔
      ∃ fault, d.FirstFault fault ∧ failure = .invalidScale fault.message := by
  constructor
  · intro hfail
    rw [build_of_present trig h] at hfail
    -- The definition is there, so a failure is that of building it.
    cases hbuild : d.build trig with
    | ok scale =>
      rw [hbuild] at hfail
      cases hfail
    | error fault =>
      rw [hbuild] at hfail
      cases hfail
      exact ⟨fault, ScaleDefinition.build_eq_error_iff.1 hbuild, rfl⟩
  · rintro ⟨fault, hfault, rfl⟩
    rw [build_of_present trig h, ScaleDefinition.build_of_firstFault trig hfault]
    rfl

/-- What is present is built when it is valid. -/
theorem exists_build_eq_ok_iff (h : set.get? name = some d) :
    (∃ scale, set.build trig name = .ok scale) ↔ d.Valid := by
  constructor
  · rintro ⟨scale, hscale⟩
    refine ScaleDefinition.valid_iff.2 fun fault hfault => ?_
    rw [(build_eq_error_iff h).2 ⟨fault, hfault, rfl⟩] at hscale
    cases hscale
  · intro hvalid
    obtain ⟨scale, hscale⟩ := ScaleDefinition.exists_build_of_valid trig hvalid
    exact ⟨scale, by rw [build_of_present trig h, hscale]; rfl⟩

/-- Where the program goes on, it has built what a release builds. -/
theorem eq_build_of_construct {o : Overflow} {result : Except Failure ColorScale}
    (h : set.construct o trig name = some result) : result = set.build trig name := by
  unfold construct at h
  cases hget : set.get? name with
  | none =>
    rw [hget] at h
    rw [build_of_absent trig hget]
    exact (Option.some.inj h).symm
  | some d =>
    rw [hget] at h
    obtain ⟨built, hbuilt, rfl⟩ := Option.map_eq_some_iff.1 h
    rw [ScaleDefinition.eq_build_of_construct hbuilt, build_of_present trig hget]

/-- The program stops at the definitions that stop it. -/
theorem construct_eq_none_iff {o : Overflow} : set.construct o trig name = none ↔
    o = .stops ∧ ∃ d, set.get? name = some d ∧ d.Valid ∧ ¬ d.Fits := by
  unfold construct
  cases hget : set.get? name with
  | none => exact iff_of_false nofun fun ⟨_, _, h, _⟩ => nomatch h
  | some d => simp [ScaleDefinition.construct_eq_none_iff]

end ScaleSet

end GlobeView

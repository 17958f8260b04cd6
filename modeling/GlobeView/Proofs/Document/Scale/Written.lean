/-
# Scale definitions that are written

A definition is written as a record of its tag and its fields, or as a list of
them (`ScaleDefinition.toListJson`).  In both forms it is read back
(`ofTree?_toJson`, `ofTree?_toListJson`): units and bounds that are left out are
written as null, and a channel as an integer that fits one.

On the way through a text the numbers have to survive.  Channels always do, and
doubles do when they are the values of the digits they are written with
(`readable_fields`).
-/

import GlobeView.Proofs.Document.Json.RoundTrip
import GlobeView.Proofs.Document.Scale.Definition

namespace GlobeView

/-! ### What is written is read back -/

namespace Tree

variable {α : Type} {read : Tree → Option α}

/-- Elements that are read back are read back as a list. -/
theorem listOf_map {toTree : α → Tree} {xs : List α} (h : ∀ x ∈ xs, read (toTree x) = some x) :
    listOf read (.list (xs.map toTree)) = some xs := by
  rw [listOf, List.mapM_map, mapM_eq_some_iff_forall₂]
  exact List.forall₂_same.2 h

/-- What is read back, and is not written as null, may be left out. -/
theorem optional_ofOption {toJson : α → Json} (hnull : ∀ x, (toJson x).toTree ≠ .null)
    (hread : ∀ x, read (toJson x).toTree = some x) (o : Option α) :
    optional read (Json.ofOption toJson o).toTree = some o := by
  cases o with
  | none => rfl
  | some x =>
    rw [Json.ofOption, optional.eq_2 _ _ (hnull x), hread]
    rfl

/-- A channel is written as an integer that fits a channel. -/
theorem channel?_toTree (c : Channel) : (Json.integer c.toInt).toTree.channel? = some c := by
  have hleast := c.le_toInt
  have hlt := c.toInt_lt
  -- The integer is in the range of 32 bits, so it is read back whatever its sign.
  have hinteger : (Json.integer c.toInt).toTree.integer? = some c.toInt := by
    rw [Json.toTree]
    split
    · simp only [integer?, Option.some.injEq]
      omega
    · simp only [integer?, Option.some.injEq]
      omega
  rw [channel?, hinteger]
  simp only [Option.bind_eq_bind, Option.bind_some]
  rw [if_pos (by omega), Int32.ofInt_toInt]

end Tree

/-- A color that is written is read back. -/
theorem Rgb.ofTree?_toJson (c : Rgb) : Rgb.ofTree? c.toJson.toTree = some c := by
  rw [toJson, Json.toTree, Json.itemTrees_eq_map]
  simp only [List.map_cons, List.map_nil, ofTree?, Tree.channel?_toTree, Option.bind_eq_bind,
    Option.bind_some]

/-- A breakpoint that is written is read back, with the very double. -/
theorem Breakpoint.ofTree?_toJson (p : Breakpoint) :
    Breakpoint.ofTree? p.toJson.toTree = some p := by
  simp only [toJson, Json.toTree, Json.itemTrees, ofTree?, Tree.real?, Rgb.ofTree?_toJson,
    Option.bind_eq_bind, Option.bind_some]

/-- All breakpoints that are written are read back, in order. -/
theorem Breakpoint.listOf_toJson (segments : List Breakpoint) :
    Tree.listOf Breakpoint.ofTree? (Json.array (segments.map toJson)).toTree = some segments := by
  rw [Json.toTree, Json.itemTrees_eq_map, List.map_map]
  exact Tree.listOf_map fun p _ => p.ofTree?_toJson

/-- Bounds that are written are read back. -/
theorem Bounds.ofTree?_toJson (b : Bounds) : Bounds.ofTree? b.toJson.toTree = some b := rfl

/-! ### Numbers that are read back -/

/-- What is written of a color can be read. -/
theorem Rgb.readable_toJson (c : Rgb) : c.toJson.Readable := by
  have hchannel : ∀ c : Channel, (Json.integer c.toInt).Readable := by
    intro c
    have hleast := c.le_toInt
    have hlt := c.toInt_lt
    exact .integer (by omega) (by omega)
  refine .array ?_
  simp [hchannel]

/-- What is written of a breakpoint can be read if its value can. -/
theorem Breakpoint.readable_toJson (p : Breakpoint) (h : Json.ReadsBack p.value) :
    p.toJson.Readable := by
  refine .array ?_
  simp [Json.Readable.real h, p.color.readable_toJson]

/-- What is written of bounds, or of none, can be read if their doubles can. -/
theorem Bounds.readable_ofOption {bounds : Option Bounds}
    (h : ∀ x ∈ bounds.elim [] fun b => [b.low, b.high], Json.ReadsBack x) :
    (Json.ofOption toJson bounds).Readable := by
  cases bounds with
  | none => exact .null
  | some b =>
    simp only [Option.elim_some, List.forall_mem_cons] at h
    obtain ⟨hlow, hhigh, -⟩ := h
    refine .array ?_
    simp [Json.Readable.real hlow, Json.Readable.real hhigh]

/-- A color is a list of scalars. -/
theorem Rgb.readableWithin_toJson (c : Rgb) (depth : Nat) :
    c.toJson.toTree.readableWithin (depth + 1) := by
  have hchannel : ∀ i : Int, (Json.integer i).toTree.readableWithin depth := by
    intro i
    rw [Json.toTree]
    split
    all_goals
      cases depth
      all_goals rfl
  rw [toJson, Json.toTree, Json.itemTrees_eq_map, Tree.readableWithin]
  simp [hchannel]

/-- A breakpoint is a list with a color in it. -/
theorem Breakpoint.readableWithin_toJson (p : Breakpoint) (depth : Nat) :
    p.toJson.toTree.readableWithin (depth + 2) := by
  rw [toJson, Json.toTree, Json.itemTrees_eq_map, Tree.readableWithin]
  simp [p.color.readableWithin_toJson depth, Json.toTree, Tree.readableWithin]

/-- Bounds are a list of scalars, and none are null. -/
theorem Bounds.readableWithin_ofOption (bounds : Option Bounds) (depth : Nat) :
    (Json.ofOption toJson bounds).toTree.readableWithin (depth + 1) := by
  cases bounds
  all_goals simp [Json.ofOption, toJson, Json.toTree, Json.itemTrees, Tree.readableWithin]

namespace ScaleDefinition

/-- A definition as the list of its tag and its fields. -/
def toListJson (d : ScaleDefinition) : Json :=
  .array (.text d.tag.name :: d.fieldsToJson.map Prod.snd)

/-- Units are read back, and so is that there are none. -/
theorem optional_units (units : Option String) :
    (Json.ofOption .text units).toTree.optional Tree.text? = some units :=
  Tree.optional_ofOption (by simp [Json.toTree]) (fun _ => rfl) units

/-- Bounds are read back from a body in the form of a list, and so is that there are none. -/
theorem boundsOf?_toJson (bounds : Option Bounds) :
    boundsOf? (.list [(Json.ofOption Bounds.toJson bounds).toTree]) = some bounds :=
  Tree.optional_ofOption (by simp [Bounds.toJson, Json.toTree]) Bounds.ofTree?_toJson bounds

/-- **A definition that is written as a list is read back.** -/
theorem ofTree?_toListJson (d : ScaleDefinition) :
    ofTree? ScaleTag.ofText? d.toListJson.toTree = some d := by
  cases d with
  | segmented units segments =>
    change ofBody? .segmented (.list [(Json.ofOption .text units).toTree,
      (Json.array (segments.map Breakpoint.toJson)).toTree]) = _
    change (Tree.optional Tree.text? (Json.ofOption .text units).toTree).bind (fun units =>
      (Tree.listOf Breakpoint.ofTree? (Json.array (segments.map Breakpoint.toJson)).toTree).bind
        fun segments => some (segmented units segments)) = _
    -- Both fields are read back, the units as one that may be left out.
    rw [optional_units, Breakpoint.listOf_toJson]
    rfl
  | sinebow bounds => exact congrArg (Option.map sinebow) (boundsOf?_toJson bounds)
  | extendedSinebow bounds => exact congrArg (Option.map extendedSinebow) (boundsOf?_toJson bounds)

/-- **A definition that is written as a record is read back.** -/
theorem ofTree?_toJson (d : ScaleDefinition) :
    ofTree? ScaleTag.ofText? d.toJson.toTree = some d := by
  have hlen : (d.fieldsToJson.map fun m => m.2.toTree).length = (fieldNames d.tag).length := by
    cases d
    all_goals rfl
  have hforms := ofTree?_list_eq_record d.tag hlen
  rw [← ofTree?_toListJson d]
  cases d
  all_goals exact hforms.symm

/-- The doubles of a definition. -/
def doubles : ScaleDefinition → List Float
  | segmented _ segments => segments.map Breakpoint.value
  | sinebow bounds | extendedSinebow bounds => bounds.elim [] fun b => [b.low, b.high]

/-- Every field of a definition can be read if its doubles can. -/
theorem readable_fields {d : ScaleDefinition} (h : ∀ x ∈ d.doubles, Json.ReadsBack x) :
    ∀ m ∈ d.fieldsToJson, m.2.Readable := by
  cases d with
  | segmented units segments =>
    refine List.forall_mem_cons.2 ⟨?_, List.forall_mem_singleton.2 (.array ?_)⟩
    · cases units
      · exact .null
      · exact .text _
    · exact List.forall_mem_map.2 fun p hp => p.readable_toJson (h p.value (List.mem_map_of_mem hp))
  | sinebow bounds => exact List.forall_mem_singleton.2 (Bounds.readable_ofOption h)
  | extendedSinebow bounds => exact List.forall_mem_singleton.2 (Bounds.readable_ofOption h)

/-- What a definition is written as is not nested deeply. -/
theorem readableWithin_fields (d : ScaleDefinition) (depth : Nat) :
    ∀ m ∈ d.fieldsToJson, m.2.toTree.readableWithin (depth + 3) := by
  cases d with
  | segmented units segments =>
    refine List.forall_mem_cons.2 ⟨?_, List.forall_mem_singleton.2 ?_⟩
    · cases units
      all_goals rfl
    · rw [Json.toTree, Json.itemTrees_eq_map, Tree.readableWithin, List.all_map, List.all_map,
        List.all_eq_true]
      exact fun p _ => p.readableWithin_toJson depth
  | sinebow bounds => exact List.forall_mem_singleton.2 (Bounds.readableWithin_ofOption bounds _)
  | extendedSinebow bounds =>
    exact List.forall_mem_singleton.2 (Bounds.readableWithin_ofOption bounds _)

/-- A definition that is written as a record is nested four deep at most. -/
theorem readableWithin_toJson (d : ScaleDefinition) (depth : Nat) :
    d.toJson.toTree.readableWithin (depth + 4) := by
  rw [toJson, Json.toTree, Json.memberTrees_eq_map, Tree.readableWithin, List.all_map,
    List.all_eq_true]
  exact List.forall_mem_cons.2 ⟨rfl, fun m hm => by
    simp [d.readableWithin_fields depth m hm]⟩

/-- A definition that is written as a list is nested four deep at most. -/
theorem readableWithin_toListJson (d : ScaleDefinition) (depth : Nat) :
    d.toListJson.toTree.readableWithin (depth + 4) := by
  rw [toListJson, Json.toTree, Json.itemTrees_eq_map, Tree.readableWithin, List.all_map,
    List.all_eq_true]
  exact List.forall_mem_cons.2 ⟨rfl, List.forall_mem_map.2 (d.readableWithin_fields depth)⟩

end ScaleDefinition
end GlobeView

/-
# Scale definitions as documents

A definition is a record with a tag, or a list that begins with one.  Which tag
a record has does not depend on where it stands, and what is made of the other
members depends on the fields of the tag alone (`ofTree?_record`, `ofBody?_congr`).

| a document | is read |
| --- | --- |
| with its members in another order | alike (`invariant_ofTree?`) |
| with a member more that is no field of its tag | alike (`ofTree?_extended`) |
| as a list of the tag and its fields | as the record is (`ofTree?_list_eq_record`) |
| without a known tag, with a field twice or without segments | not at all (`ofTree?_of_faulty`) |
-/

import GlobeView.Document.Scale
import GlobeView.Proofs.Document.Reordering

namespace GlobeView

/-! ### Parts of definitions -/

/-- A color is a list, so no order of members bears on it. -/
theorem Rgb.invariant_ofTree? : Tree.Invariant Rgb.ofTree? := by
  intro t t' h
  cases h with
  | refl => rfl
  | record => rfl
  | list h =>
    -- Only lists of three items are looked into; all others are no colors.
    match h with
    | .nil => rfl
    | .cons _ .nil => rfl
    | .cons _ (.cons _ .nil) => rfl
    | .cons hred (.cons hgreen (.cons hblue .nil)) =>
      simp only [ofTree?, Tree.invariant_channel? hred, Tree.invariant_channel? hgreen,
        Tree.invariant_channel? hblue]
    | .cons _ (.cons _ (.cons _ (.cons _ _))) => rfl

/-- A breakpoint is a list, so no order of members bears on it. -/
theorem Breakpoint.invariant_ofTree? : Tree.Invariant Breakpoint.ofTree? := by
  intro t t' h
  cases h with
  | refl => rfl
  | record => rfl
  | list h =>
    match h with
    | .nil => rfl
    | .cons _ .nil => rfl
    | .cons hvalue (.cons hcolor .nil) =>
      simp only [ofTree?, Tree.invariant_real? hvalue, Rgb.invariant_ofTree? hcolor]
    | .cons _ (.cons _ (.cons _ _)) => rfl

/-- Bounds are a list, so no order of members bears on them. -/
theorem Bounds.invariant_ofTree? : Tree.Invariant Bounds.ofTree? := by
  intro t t' h
  cases h with
  | refl => rfl
  | record => rfl
  | list h =>
    match h with
    | .nil => rfl
    | .cons _ .nil => rfl
    | .cons hlow (.cons hhigh .nil) =>
      simp only [ofTree?, Tree.invariant_real? hlow, Tree.invariant_real? hhigh]
    | .cons _ (.cons _ (.cons _ _)) => rfl

namespace ScaleTag

/-- A kind of scale is told by its name, as a text. -/
theorem ofText?_eq_some {t : Tree} {tag : ScaleTag} :
    ofText? t = some tag ↔ t = .text tag.name := by
  constructor
  · intro h
    obtain ⟨name, htext, hname⟩ := Option.bind_eq_some_iff.1 h
    rw [Tree.text?_eq_some.1 htext]
    unfold ofName? at hname
    split at hname
    case h_4 => simp at hname
    all_goals
      obtain rfl := Option.some.inj hname
      rfl
  · rintro rfl
    cases tag
    all_goals rfl

/-- Reading a kind of scale does not see an order. -/
theorem invariant_ofText? : Tree.Invariant ofText? :=
  Tree.invariant_scalar (fun _ => rfl) fun _ => rfl

end ScaleTag

namespace ScaleDefinition

/-! ### Tag and fields -/

/-- The fields of a definition with the tag, in order. -/
def fieldNames : ScaleTag → List String
  | .segmented => ["units", "segments"]
  | .sinebow => ["bounds"]
  | .extendedSinebow => ["bounds"]

/-- The members besides the tag. -/
def untagged (members : List (Key × Tree)) : List (Key × Tree) :=
  members.filter fun m => m.1 != .text tagField

section

variable {members : List (Key × Tree)} {tag : ScaleTag}

/-- A record has a tag when its field is told once, and the rest of it is its body. -/
theorem tagged?_record :
    tagged? (.record members) = (Tree.atMostOne (Tree.valuesOf members tagField)).bind fun t =>
      t.map fun t => ⟨t, .record (untagged members)⟩ := by
  rw [tagged?, List.partition_eq_filter_filter]
  change (Tree.atMostOne (Tree.valuesOf members tagField)).bind _ = _
  refine congrArg _ (funext fun t => ?_)
  cases t
  all_goals rfl

/-- **A record with one tag is read by its other members.** -/
theorem ofTree?_record (h : Tree.valuesOf members tagField = [.text tag.name]) :
    ofTree? ScaleTag.ofText? (.record members) = ofBody? tag (.record (untagged members)) := by
  have htag : ScaleTag.ofText? (.text tag.name) = some tag := ScaleTag.ofText?_eq_some.2 rfl
  rw [ofTree?, tagged?_record, h, Tree.atMostOne_eq_some_some.2 rfl]
  simp only [Option.bind_eq_bind, Option.bind_some, Option.map_some, htag]

/-- A record without exactly one known tag is no definition. -/
theorem ofTree?_record_eq_none
    (h : ∀ tag : ScaleTag, Tree.valuesOf members tagField ≠ [.text tag.name]) :
    ofTree? ScaleTag.ofText? (.record members) = none := by
  rw [ofTree?, tagged?_record]
  cases hvalues : Tree.atMostOne (Tree.valuesOf members tagField) with
  | none => rfl
  | some o =>
    cases o with
    | none => rfl
    | some t =>
      have hnone : ScaleTag.ofText? t = none := Option.eq_none_iff_forall_ne_some.2 fun tag htag =>
        h tag (ScaleTag.ofText?_eq_some.1 htag ▸ Tree.atMostOne_eq_some_some.1 hvalues)
      simp only [Option.bind_eq_bind, Option.bind_some, Option.map_some, hnone, Option.bind_none]

/-- **What is made of a body depends on the fields of its tag alone.** -/
theorem ofBody?_congr {body body' : Tree}
    (h : body.fields (fieldNames tag) = body'.fields (fieldNames tag)) :
    ofBody? tag body = ofBody? tag body' := by
  cases tag
  all_goals
    rw [fieldNames] at h
    simp only [ofBody?, boundsOf?, h]

/-- A body whose fields are not found is no definition of any kind. -/
theorem ofBody?_eq_none {body : Tree} (h : body.fields (fieldNames tag) = none) :
    ofBody? tag body = none := by
  cases tag
  all_goals
    rw [fieldNames] at h
    simp [ofBody?, boundsOf?, h]

end

/-! ### Order -/

/-- Reading the bounds of a body does not see an order. -/
theorem invariant_boundsOf? : Tree.Invariant boundsOf? := by
  refine Tree.invariant_fields fun {vs vs'} h => ?_
  cases h with
  | nil => rfl
  | cons h hrest =>
    cases hrest with
    | nil =>
      cases h with
      | none => rfl
      | some hbounds => exact Tree.invariant_optional Bounds.invariant_ofTree? hbounds
    | cons _ _ =>
      cases h
      all_goals rfl

/-- Whatever the kind, reading a body does not see an order. -/
theorem invariant_ofBody? (tag : ScaleTag) : Tree.Invariant (ofBody? tag) := by
  cases tag with
  | segmented =>
    refine Tree.invariant_fields fun {vs vs'} h => ?_
    match h with
    | .nil => rfl
    | .cons _ .nil => rfl
    | .cons _ (.cons .none .nil) => rfl
    | .cons hunits (.cons (.some hsegments) .nil) =>
      have hunits' := Tree.invariant_optional Tree.invariant_text? (Tree.getD_reordered hunits)
      have hsegments' := Tree.invariant_listOf Breakpoint.invariant_ofTree? hsegments
      simp only [hunits', hsegments']
    | .cons _ (.cons h (.cons _ _)) =>
      cases h
      all_goals rfl
  | sinebow => exact fun h => congrArg (Option.map sinebow) (invariant_boundsOf? h)
  | extendedSinebow => exact fun h => congrArg (Option.map extendedSinebow) (invariant_boundsOf? h)

/-- **A definition does not depend on the order of its members.** -/
theorem invariant_ofTree? {readTag : Tree → Option ScaleTag} (hread : Tree.Invariant readTag) :
    Tree.Invariant (ofTree? readTag) := by
  intro t t' h
  cases h with
  | refl => rfl
  | list h =>
    match h with
    | .nil => rfl
    | .cons htag hrest =>
      simp only [ofTree?, tagged?, Option.bind_eq_bind, Option.bind_some, hread htag]
      cases readTag _ with
      | none => rfl
      | some tag => exact invariant_ofBody? tag (.list hrest)
  | record hkeys hvalues hperm =>
    rename_i ms mid ms'
    -- The tag is found in any order, and taking it out leaves a reordering of the body.
    have hmembers := Tree.memberReordered_of_map hkeys hvalues
    have htag := Tree.valuesOf_reordered hmembers hperm tagField
    have hbody : Tree.Reordered (.record (untagged ms)) (.record (untagged ms')) :=
      Tree.reordered_record (Tree.filter_reordered hmembers (· != .text tagField)) (hperm.filter _)
    rw [ofTree?, ofTree?, tagged?_record, tagged?_record]
    generalize Tree.atMostOne (Tree.valuesOf ms tagField) = o at htag ⊢
    generalize Tree.atMostOne (Tree.valuesOf ms' tagField) = o' at htag ⊢
    -- Both records have no tag, or tags that are read alike.
    match htag with
    | .none => rfl
    | .some .none => rfl
    | .some (.some htag) =>
      simp only [Option.bind_eq_bind, Option.bind_some, Option.map_some, hread htag]
      cases readTag _ with
      | none => rfl
      | some tag => exact invariant_ofBody? tag hbody

/-! ### Other members -/

/-- The second document is the first one with a member more, which is neither a tag nor a field
of the tag that the definition has, and is readable. -/
inductive Extended (depth : Nat) : Tree → Tree → Prop
  | member (before after : List (Key × Tree)) {name : String} {v : Tree} (htag : name ≠ tagField)
      (hfield : ∀ tag : ScaleTag, Tree.valuesOf (before ++ after) tagField = [.text tag.name] →
        name ∉ fieldNames tag)
      (hreadable : v.readableWithin depth) :
      Extended depth (.record (before ++ after)) (.record (before ++ (.text name, v) :: after))

/-- A member under another name than that of the tag stays in the body. -/
theorem untagged_insert {before after : List (Key × Tree)} {name : String} (v : Tree)
    (h : name ≠ tagField) :
    untagged (before ++ (.text name, v) :: after) =
      untagged before ++ (.text name, v) :: untagged after := by
  simp [untagged, h]

/-- **A member that is no field of its tag leaves a definition as it is.** -/
theorem ofTree?_extended {depth : Nat} {t t' : Tree} (h : Extended depth t t') :
    ofTree? ScaleTag.ofText? t = ofTree? ScaleTag.ofText? t' := by
  obtain @⟨before, after, name, v, htag, hfield, -⟩ := h
  have hvalues := Tree.valuesOf_insert before after v htag
  -- The member that is put in is not the tag, so both records have the same, if any.
  by_cases hknown : ∃ tag : ScaleTag,
      Tree.valuesOf (before ++ after) tagField = [.text tag.name]
  · obtain ⟨tag, htold⟩ := hknown
    rw [ofTree?_record htold, ofTree?_record (hvalues.trans htold)]
    refine ofBody?_congr ?_
    rw [untagged_insert v htag, Tree.fields_insert v (hfield tag htold), untagged,
      List.filter_append]
    rfl
  · rw [ofTree?_record_eq_none (not_exists.1 hknown),
      ofTree?_record_eq_none fun tag htold => hknown ⟨tag, hvalues.symm.trans htold⟩]

/-- Members that are put in are readable, so they make nothing unreadable. -/
theorem readableWithin_extended {depth : Nat} {t t' : Tree} (h : Extended depth t t') :
    t.readableWithin (depth + 1) = t'.readableWithin (depth + 1) := by
  obtain @⟨before, after, name, v, -, -, hreadable⟩ := h
  have hkey : (Key.text name != .unreadable) = true := bne_iff_ne.2 nofun
  simp [Tree.readableWithin, hreadable, hkey]

/-! ### Lists -/

/-- **A list of a tag and its fields is read as the record of them is.** -/
theorem ofTree?_list_eq_record (tag : ScaleTag) {values : List Tree}
    (hlen : values.length = (fieldNames tag).length) :
    ofTree? ScaleTag.ofText? (.list (.text tag.name :: values)) =
      ofTree? ScaleTag.ofText? (.record ((.text tagField, .text tag.name) ::
        ((fieldNames tag).map Key.text).zip values)) := by
  match tag, values, hlen with
  | .segmented, [units, segments], _ => rfl
  | .sinebow, [bounds], _ => rfl
  | .extendedSinebow, [bounds], _ => rfl

/-! ### Documents that are no definitions -/

/-- No field of a body has the name of the tag, so taking out the tag leaves its values. -/
theorem valuesOf_untagged {members : List (Key × Tree)} {tag : ScaleTag} {name : String}
    (hname : name ∈ fieldNames tag) :
    Tree.valuesOf (untagged members) name = Tree.valuesOf members name := by
  have hne : name ≠ tagField := by
    cases tag
    all_goals
      rintro rfl
      exact absurd hname (by decide)
  exact Tree.valuesOf_filter fun v => by simp [hne]

/-- What makes a document no definition: a tag that is missing, repeated or unknown, a field
that is repeated, or a segmented scale without segments. -/
inductive Faulty : Tree → Prop
  | tag {members : List (Key × Tree)}
      (h : ∀ tag : ScaleTag, Tree.valuesOf members tagField ≠ [.text tag.name]) :
      Faulty (.record members)
  | repeated {members : List (Key × Tree)} {tag : ScaleTag} {name : String}
      (htag : Tree.valuesOf members tagField = [.text tag.name]) (hname : name ∈ fieldNames tag)
      (h : 2 ≤ (Tree.valuesOf members name).length) : Faulty (.record members)
  | segments {members : List (Key × Tree)}
      (htag : Tree.valuesOf members tagField = [.text ScaleTag.segmented.name])
      (h : ∀ m ∈ members, m.1.isField "segments" 1 = false) : Faulty (.record members)
  | listTag {items : List Tree} (h : ∀ tag : ScaleTag, items.head? ≠ some (.text tag.name)) :
      Faulty (.list items)
  | listSegments {values : List Tree} (h : values.length < 2) :
      Faulty (.list (.text ScaleTag.segmented.name :: values))

/-- A record without segments is no body of a segmented scale, whatever units it tells. -/
theorem ofBody?_segmented_eq_none {body : List (Key × Tree)}
    (h : ∀ m ∈ body, m.1.isField "segments" 1 = false) :
    ofBody? .segmented (.record body) = none := by
  have hnone : Tree.field body "segments" 1 = some none := by
    rw [Tree.field, List.filter_eq_nil_iff.2]
    · rfl
    · intro m hm
      rw [h m hm]
      exact Bool.false_ne_true
  -- If the body is read at all, its second field is found missing.
  have hfields : (Tree.record body).fields ["units", "segments"] = none ∨
      ∃ units, (Tree.record body).fields ["units", "segments"] = some [units, none] := by
    rw [Tree.fields]
    split
    · cases hunits : Tree.field body "units" 0 with
      | none => simp [hunits]
      | some units => simp [hunits, hnone]
    · exact .inl rfl
  rcases hfields with hfields | ⟨units, hfields⟩
  · simp [ofBody?, hfields]
  · simp [ofBody?, hfields]

/-- **A faulty document is no definition.** -/
theorem ofTree?_of_faulty {t : Tree} (h : Faulty t) : ofTree? ScaleTag.ofText? t = none := by
  -- One case for each of the ways in which a definition can be faulty.
  cases h with
  | tag h => exact ofTree?_record_eq_none h
  | repeated htag hname h =>
    rw [ofTree?_record htag]
    refine ofBody?_eq_none (Tree.fields_eq_none_of_repeated hname ?_)
    rwa [valuesOf_untagged hname]
  | segments htag h =>
    rw [ofTree?_record htag]
    exact ofBody?_segmented_eq_none fun m hm => h m (List.mem_of_mem_filter hm)
  | @listTag items h =>
    cases items with
    | nil => rfl
    | cons t rest =>
      have hnone : ScaleTag.ofText? t = none := Option.eq_none_iff_forall_ne_some.2 fun tag htag =>
        h tag (congrArg some (ScaleTag.ofText?_eq_some.1 htag))
      simp [ofTree?, tagged?, hnone]
  | @listSegments values h =>
    cases values with
    | nil => rfl
    | cons units rest =>
      -- A list that is too short holds the tag and the units at most.
      obtain rfl : rest = [] :=
        List.length_eq_zero_iff.1 (Nat.lt_one_iff.1 (Nat.lt_of_succ_lt_succ h))
      rfl

end ScaleDefinition
end GlobeView

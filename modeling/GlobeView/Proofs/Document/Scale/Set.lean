/-
# Scale sets as documents

A set is a record with its scales, each a definition under its name.  Written as
JSON it is read back, each definition in whichever form it was written.  What is
read of a document does not change when the members of its records are put in
another order, as long as the names of the scales are distinct, nor when members
are added that are neither the scales nor known to a definition, and one faulty
definition makes the whole document unreadable (`ofJson_document`).

A member that is added to a definition is passed over only after it was taken
in, so it has to be readable (`ofJson_unreadable_member`); a member added to the
set itself need not be.
-/

import GlobeView.Proofs.Document.Json.Reader
import GlobeView.Proofs.Document.Scale.Written
import GlobeView.Proofs.Names
import Mathlib.Tactic

namespace GlobeView
namespace ScaleSet

/-! ### Order -/

/-- The scales of the document stand under distinct names. -/
def DistinctNames (t : Tree) : Prop :=
  ∀ entries, t.fields [scalesField] = some [some (.record entries)] →
    (entries.map Prod.fst).Nodup

/-- Scales in another order are the same map, if no name is given twice. -/
theorem ofScales?_reordered {s s' : Tree} (h : Tree.Reordered s s')
    (hnames : ∀ entries, s = .record entries → (entries.map Prod.fst).Nodup) :
    ofScales? ScaleTag.ofText? s = ofScales? ScaleTag.ofText? s' := by
  rw [ofScales?, ofScales?, Tree.namesOf_reordered
    (ScaleDefinition.invariant_ofTree? ScaleTag.invariant_ofText?) h hnames]

/-- **A set does not depend on the order of members.** -/
theorem ofJsonTree?_reordered {t t' : Tree} (h : Tree.Reordered t t') (hnames : DistinctNames t) :
    ofJsonTree? t = ofJsonTree? t' := by
  have hfields := Tree.fields_reordered h [scalesField]
  rw [ofJsonTree?, ofJsonTree?]
  rw [DistinctNames] at hnames
  generalize t.fields [scalesField] = vs at hfields hnames ⊢
  generalize t'.fields [scalesField] = vs' at hfields ⊢
  -- Both documents are without scales, or they have scales that are reordered.
  match hfields with
  | .none => rfl
  | .some .nil => rfl
  | .some (.cons .none .nil) => rfl
  | .some (.cons (.some hs) .nil) =>
    have hreadable := Tree.readableWithin_reordered hs (Json.greatestDepth - 1)
    have hscales := ofScales?_reordered hs fun entries heq => hnames entries (by rw [heq])
    simp only [Option.bind_eq_bind, Option.bind_some, hreadable, hscales]
  | .some (.cons h (.cons _ _)) =>
    cases h
    all_goals rfl

/-! ### Other members -/

/-- The scales with a member more in one of the definitions. -/
inductive ScalesExtended : Tree → Tree → Prop
  | definition (before after : List (Key × Tree)) (key : Key) {d d' : Tree}
      (h : ScaleDefinition.Extended (Json.greatestDepth - 3) d d') :
      ScalesExtended (.record (before ++ (key, d) :: after))
        (.record (before ++ (key, d') :: after))

/-- The second document is the first one with a member more that it does not know, in the set or
in a definition. -/
inductive Extended : Tree → Tree → Prop
  | member (before after : List (Key × Tree)) {name : String} (v : Tree) (h : name ≠ scalesField) :
      Extended (.record (before ++ after)) (.record (before ++ (.text name, v) :: after))
  | scales (before after : List (Key × Tree)) {s s' : Tree} (h : ScalesExtended s s') :
      Extended (.record (before ++ (.text scalesField, s) :: after))
        (.record (before ++ (.text scalesField, s') :: after))
  | list {s s' : Tree} (h : ScalesExtended s s') : Extended (.list [s]) (.list [s'])

/-- Members that are put into definitions make no set unreadable. -/
theorem readableWithin_scalesExtended {s s' : Tree} (h : ScalesExtended s s') :
    s.readableWithin (Json.greatestDepth - 1) = s'.readableWithin (Json.greatestDepth - 1) := by
  obtain @⟨before, after, key, d, d', h⟩ := h
  have hdefinition := ScaleDefinition.readableWithin_extended h
  have hdepth : Json.greatestDepth - 1 = Json.greatestDepth - 3 + 1 + 1 := rfl
  simp only [hdepth, Tree.readableWithin, List.all_append, List.all_cons, hdefinition]

/-- Members that are put into definitions change none of the scales. -/
theorem ofScales?_extended {s s' : Tree} (h : ScalesExtended s s') :
    ofScales? ScaleTag.ofText? s = ofScales? ScaleTag.ofText? s' := by
  obtain @⟨before, after, key, d, d', h⟩ := h
  have hentries : ∀ m : Key × Tree, Tree.entryOf (ScaleDefinition.ofTree? ScaleTag.ofText?) m =
      Tree.entryOf (ScaleDefinition.ofTree? ScaleTag.ofText?) m := fun _ => rfl
  rw [ofScales?, ofScales?, Tree.namesOf_record, Tree.namesOf_record, mapM_congr]
  refine List.rel_append (List.forall₂_same.2 fun m _ => hentries m)
    (.cons ?_ (List.forall₂_same.2 fun m _ => hentries m))
  rw [Tree.entryOf, Tree.entryOf, ScaleDefinition.ofTree?_extended h]

/-- A set is read by its scales. -/
theorem ofJsonTree?_of_scales {t s : Tree} (h : t.fields [scalesField] = some [some s]) :
    ofJsonTree? t = if s.readableWithin (Json.greatestDepth - 1) then ofScales? ScaleTag.ofText? s
      else none := by
  rw [ofJsonTree?, h]
  rfl

/-- A document without the field of the scales, or with two, is no set. -/
theorem ofJsonTree?_eq_none {t : Tree} (h : t.fields [scalesField] = none) :
    ofJsonTree? t = none := by
  rw [ofJsonTree?, h]
  rfl

/-- **A member that a set does not know leaves it as it is.** -/
theorem ofJsonTree?_extended {t t' : Tree} (h : Extended t t') :
    ofJsonTree? t = ofJsonTree? t' := by
  cases h with
  | member before after v h =>
    rw [ofJsonTree?, ofJsonTree?, Tree.fields_insert v (by simpa using h)]
  | @scales before after s s' h =>
    -- The scales are either the only ones in both documents, or in neither.
    rcases Tree.fields_replace before after scalesField s s' with
      ⟨hfields, hfields'⟩ | ⟨hfields, hfields'⟩
    · rw [ofJsonTree?_eq_none hfields, ofJsonTree?_eq_none hfields']
    · rw [ofJsonTree?_of_scales hfields, ofJsonTree?_of_scales hfields',
        readableWithin_scalesExtended h, ofScales?_extended h]
  | @list s s' h =>
    rw [ofJsonTree?_of_scales (t := .list [s]) rfl, ofJsonTree?_of_scales (t := .list [s']) rfl,
      readableWithin_scalesExtended h, ofScales?_extended h]

/-- **A set does not depend on members that it does not know.** -/
theorem ofJsonTree?_of_run {t t' : Tree} (h : Relation.ReflTransGen Extended t t') :
    ofJsonTree? t = ofJsonTree? t' := by
  induction h with
  | refl => rfl
  | tail _ hstep ih => exact ih.trans (ofJsonTree?_extended hstep)

/-! ### Documents that are no sets -/

/-- What makes a document no set: scales that are repeated, or a faulty definition. -/
inductive Faulty : Tree → Prop
  | repeated {members : List (Key × Tree)}
      (h : 2 ≤ (Tree.valuesOf members scalesField).length) : Faulty (.record members)
  | definition {t d : Tree} {entries : List (Key × Tree)} {key : Key}
      (hscales : t.fields [scalesField] = some [some (.record entries)])
      (hmem : (key, d) ∈ entries) (h : ScaleDefinition.Faulty d) : Faulty t

/-- **A faulty document is no set.** -/
theorem ofJsonTree?_of_faulty {t : Tree} (h : Faulty t) : ofJsonTree? t = none := by
  cases h with
  | repeated h =>
    exact ofJsonTree?_eq_none (Tree.fields_eq_none_of_repeated (List.mem_singleton_self _) h)
  | @definition _ d entries key hscales hmem h =>
    -- One definition that is not read is enough to read none.
    have hentry : Tree.entryOf (ScaleDefinition.ofTree? ScaleTag.ofText?) (key, d) = none := by
      rw [Tree.entryOf, ScaleDefinition.ofTree?_of_faulty h]
      cases key.name?
      all_goals rfl
    rw [ofJsonTree?_of_scales hscales, ofScales?, Tree.namesOf_record, mapM_eq_none hmem hentry]
    split
    all_goals rfl

/-! ### Sets that are written -/

/-- A definition as JSON, as a list if its name is to be written so. -/
def definitionJson (asList : String → Bool) (entry : String × ScaleDefinition) : Json :=
  if asList entry.1 then entry.2.toListJson else entry.2.toJson

/-- Scales as JSON in the order they are listed in, those of some names as lists. -/
def listedJson (asList : String → Bool) (entries : List (String × ScaleDefinition)) : Json :=
  .object [(scalesField,
    .object (entries.map fun entry => (entry.1, definitionJson asList entry)))]

/-- Every double of the set is the value of the digits it is written with. -/
def ReadsBack (set : ScaleSet) : Prop :=
  ∀ entry ∈ set.scales.entries, ∀ x ∈ entry.2.doubles, Json.ReadsBack x

section

variable {set : ScaleSet} {entries : List (String × ScaleDefinition)}

/-- Scales whose doubles read back are readable in whatever order and form they are listed. -/
theorem readable_listedJson (h : set.ReadsBack) (hperm : entries.Perm set.scales.entries)
    (asList : String → Bool) : (listedJson asList entries).Readable := by
  refine .object (List.forall_mem_singleton.2 (.object ?_))
  refine List.forall_mem_map.2 fun entry hentry => ?_
  have hfields := ScaleDefinition.readable_fields (h entry (hperm.mem_iff.1 hentry))
  change (definitionJson asList entry).Readable
  rw [definitionJson]
  split
  · exact .array (List.forall_mem_cons.2 ⟨.text _, List.forall_mem_map.2 hfields⟩)
  · exact .object (List.forall_mem_cons.2 ⟨.text _, hfields⟩)

/-- A definition that is written in either form is read back. -/
theorem ofTree?_definitionJson (asList : String → Bool) (entry : String × ScaleDefinition) :
    ScaleDefinition.ofTree? ScaleTag.ofText? (definitionJson asList entry).toTree =
      some entry.2 := by
  rw [definitionJson]
  split
  · exact entry.2.ofTree?_toListJson
  · exact entry.2.ofTree?_toJson

/-- A definition is nested four deep at most, in either form. -/
theorem readableWithin_definitionJson (asList : String → Bool) (entry : String × ScaleDefinition)
    (depth : Nat) : (definitionJson asList entry).toTree.readableWithin (depth + 4) := by
  rw [definitionJson]
  split
  · exact entry.2.readableWithin_toListJson depth
  · exact entry.2.readableWithin_toJson depth

/-- **A set that is written is read back**, in whatever order its scales are listed and whichever
of them are written as lists. -/
theorem ofJsonTree?_listedJson (hperm : entries.Perm set.scales.entries)
    (asList : String → Bool) : ofJsonTree? (listedJson asList entries).toTree = some set := by
  have htree : (listedJson asList entries).toTree =
      .record [(.text scalesField, .record (entries.map fun entry =>
        (.text entry.1, (definitionJson asList entry).toTree)))] := by
    simp [listedJson, Json.toTree, Json.memberTrees_eq_map]
  have hentries : (entries.map fun entry =>
      (Key.text entry.1, (definitionJson asList entry).toTree)).mapM
        (Tree.entryOf (ScaleDefinition.ofTree? ScaleTag.ofText?)) = some entries := by
    rw [List.mapM_map, mapM_eq_some_iff_forall₂]
    exact List.forall₂_same.2 fun entry _ =>
      Tree.entryOf_eq_some.2 ⟨rfl, ofTree?_definitionJson asList entry⟩
  -- Definitions are nested four deep, and there are three levels above them.
  have hreadable : (Tree.record (entries.map fun entry =>
      (Key.text entry.1, (definitionJson asList entry).toTree))).readableWithin
        (Json.greatestDepth - 1) := by
    have hdepth : Json.greatestDepth - 1 = 121 + 4 + 1 := rfl
    rw [hdepth, Tree.readableWithin, List.all_map, List.all_eq_true]
    exact fun entry _ => by simp [readableWithin_definitionJson asList entry 121]
  -- The scales make up the same map in every order.
  have hmap : NameMap.ofList entries = set.scales := by
    rw [← NameMap.ofList_eq_of_perm hperm.symm set.scales.nodup_names, NameMap.ofList_entries]
  rw [htree, ofJsonTree?_of_scales rfl, if_pos hreadable, ofScales?, Tree.namesOf_record, hentries,
    Option.map_some, hmap]
  rfl

end

end ScaleSet

/-- **A list of a tag and its fields says the same as the record of them.** -/
theorem ScaleDefinition.ofJsonTree?_list_eq_record (tag : ScaleTag) {values : List Tree}
    (hlen : values.length = (fieldNames tag).length) :
    ofJsonTree? (.list (.text tag.name :: values)) =
      ofJsonTree? (.record ((.text tagField, .text tag.name) ::
        ((fieldNames tag).map Key.text).zip values)) := by
  have hreadable : ∀ depth, (Tree.list (.text tag.name :: values)).readableWithin depth =
      (Tree.record ((.text tagField, .text tag.name) ::
        ((fieldNames tag).map Key.text).zip values)).readableWithin depth := by
    intro depth
    cases depth with
    | zero => rfl
    | succ depth =>
      -- The list is as long as the kind of scale has fields, so they are the same values.
      match tag, values, hlen with
      | .segmented, [units, segments], _ => rfl
      | .sinebow, [bounds], _ => rfl
      | .extendedSinebow, [bounds], _ => rfl
  rw [ofJsonTree?, ofJsonTree?, hreadable, ofTree?_list_eq_record tag hlen]

namespace ScaleSet

/-! ### The whole -/

/-- **What the JSON of a set says.**  A set whose doubles survive is read back from what it is
written as, in whatever order the scales are listed and each definition as a record or as a list.
Neither the order of members nor members that are not known change what is read, a list of a tag
and its fields is read as the record of them, and a faulty document is not read. -/
theorem ofJson_document :
    (∀ set : ScaleSet, set.ReadsBack →
      ofJson (String.ofList set.toJson.compact) = .ok set ∧
        ∀ asList entries, entries.Perm set.scales.entries →
          ofJson (String.ofList (listedJson asList entries).compact) = .ok set) ∧
    (∀ t t' : Tree, Tree.Reordered t t' → DistinctNames t → ofJsonTree? t = ofJsonTree? t') ∧
    (∀ t t' : Tree, Relation.ReflTransGen Extended t t' → ofJsonTree? t = ofJsonTree? t') ∧
    (∀ (tag : ScaleTag) (values : List Tree),
      values.length = (ScaleDefinition.fieldNames tag).length →
        ScaleDefinition.ofJsonTree? (.list (.text tag.name :: values)) =
          ScaleDefinition.ofJsonTree? (.record ((.text ScaleDefinition.tagField, .text tag.name) ::
            ((ScaleDefinition.fieldNames tag).map Key.text).zip values))) ∧
    ∀ t : Tree, Faulty t → ofJsonTree? t = none := by
  have hforms : ∀ set : ScaleSet, set.ReadsBack → ∀ asList entries,
      entries.Perm set.scales.entries →
        ofJson (String.ofList (listedJson asList entries).compact) = .ok set :=
    fun set hset asList entries hperm =>
      readJson_eq_ok.2 ⟨_, Tree.ofJson?_compact (readable_listedJson hset hperm asList),
        ofJsonTree?_listedJson hperm asList⟩
  -- The document that is written is the one without lists, and with the names in order.
  refine ⟨fun set hset => ⟨?_, hforms set hset⟩, fun _ _ => ofJsonTree?_reordered,
    fun _ _ => ofJsonTree?_of_run, fun tag _ => ScaleDefinition.ofJsonTree?_list_eq_record tag,
    fun _ => ofJsonTree?_of_faulty⟩
  exact hforms set hset (fun _ => false) set.scales.entries (.refl _)

/-- A set of two scales is read back; scales are listed in the other order; a member is added to
the set and another one to a definition; bounds are left out as null; a tag is unknown. -/
theorem ofJson_document_temp_wind :
    (∃ set : ScaleSet, set.scales.entries =
        [("temp", .segmented (some "K") [⟨193.0, ⟨37, 4, 42⟩⟩, ⟨328.5, ⟨88, -27, 67⟩⟩]),
          ("wind", .extendedSinebow (some ⟨0.0, 100.0⟩))] ∧
      ofJson (String.ofList set.toJson.compact) = .ok set ∧
        ofJson (String.ofList
          (listedJson (· == "temp") set.scales.entries.reverse).compact) = .ok set) ∧
    ofJsonTree? (.record [(.text "scales", .record [(.text "a", .list [.text "sinebow"]),
        (.text "b", .list [.text "extended_sinebow"])])]) =
      ofJsonTree? (.record [(.text "scales", .record [(.text "b", .list [.text "extended_sinebow"]),
        (.text "a", .list [.text "sinebow"])])]) ∧
    ofJsonTree? (.record [(.text "scales", .record [(.text "a",
        .record [(.text "type", .text "sinebow")])])]) =
      ofJsonTree? (.record [(.text "x", .unreadable), (.text "scales", .record [(.text "a",
        .record [(.text "type", .text "sinebow"), (.text "units", .null)])])]) ∧
    ScaleDefinition.ofJsonTree? (.list [.text "sinebow", .null]) =
      ScaleDefinition.ofJsonTree? (.record [(.text "type", .text "sinebow"),
        (.text "bounds", .null)]) ∧
    ofJsonTree? (.record [(.text "scales", .record [(.text "a",
        .record [(.text "type", .text "rainbow")])])]) = none := by
  obtain ⟨hwritten, horder, hextended, hlist, hfaulty⟩ := ofJson_document
  refine ⟨?_, horder _ _ ?_ ?_, hextended _ _ (.tail
    (.single (.scales [] [] (.definition [] [] _ ?_))) (.member [] _ _ ?_)),
    hlist .sinebow [.null] rfl, hfaulty _ (.definition rfl List.mem_cons_self (.tag ?_))⟩
  · have hset := hwritten ⟨⟨[("temp", .segmented (some "K")
      [⟨193.0, ⟨37, 4, 42⟩⟩, ⟨328.5, ⟨88, -27, 67⟩⟩]),
      ("wind", .extendedSinebow (some ⟨0.0, 100.0⟩))], List.pairwise_pair.2 (by decide)⟩⟩ (by
        change ∀ entry ∈ _, ∀ x ∈ _, _
        decide +kernel)
    exact ⟨_, rfl, hset.1, hset.2 _ _ (List.reverse_perm _)⟩
  · refine Tree.reordered_record ?_ (.refl _)
    refine .cons ⟨rfl, ?_⟩ .nil
    exact Tree.reordered_record (List.forall₂_same.2 fun m _ => ⟨rfl, .refl m.2⟩) (.swap ..)
  · intro entries h
    have heq : some [some (Tree.record [(.text "a", .list [.text "sinebow"]),
      (.text "b", .list [.text "extended_sinebow"])])] = some [some (.record entries)] := h
    simp only [Option.some.injEq, List.cons.injEq, Tree.record.injEq, and_true] at heq
    rw [← heq]
    decide
  · refine .member [(.text "type", .text "sinebow")] [] (by decide) ?_ rfl
    intro tag htag
    cases tag
    · simp [Tree.valuesOf, ScaleDefinition.tagField, ScaleTag.name] at htag
    all_goals decide
  · decide
  · intro tag htag
    cases tag
    all_goals simp [Tree.valuesOf, ScaleDefinition.tagField, ScaleTag.name] at htag

/-- **A member that is passed over makes the set unreadable if it has no value.** -/
theorem ofJson_unreadable_member :
    ofJson "\x7b\"scales\":\x7b\"a\":\x7b\"type\":\"sinebow\"\x7d\x7d\x7d" =
        .ok ⟨.ofList [("a", .sinebow none)]⟩ ∧
      ofJson "\x7b\"scales\":\x7b\"a\":\x7b\"type\":\"sinebow\",\"x\":1e2147483648\x7d\x7d\x7d" =
        .error .json := by
  constructor
  · cbv
  · cbv

end ScaleSet
end GlobeView

/-
# Configurations as documents

Five fields of a configuration always have to be told, exactly once each
(`Configuration.ToldBy`); the five fields of its selection make a selection when
each of them is told exactly once, too, and are passed over otherwise
(`Selection.ToldBy`).  What reading a record finds is thereby determined, in
whatever order the members stand (`Configuration.ofTree?_eq_some`).

All members besides the five fields are taken in before a selection is looked
for.  So they have to be readable, though they do not matter otherwise.
-/

import GlobeView.Proofs.Document.Json.Reader
import GlobeView.Proofs.Document.Json.RoundTrip
import Mathlib.Tactic

namespace GlobeView

variable {members : List (Key × Tree)}

namespace Selection

/-- Each field of the selection is told exactly once, as its text. -/
structure ToldBy (members : List (Key × Tree)) (s : Selection) : Prop where
  date : Tree.valuesOf members "date" = [.text s.date]
  hour : Tree.valuesOf members "hour" = [.text s.hour]
  param : Tree.valuesOf members "param" = [.text s.param]
  surface : Tree.valuesOf members "surface" = [.text s.surface]
  level : Tree.valuesOf members "level" = [.text s.level]

/-- **A selection is read off readable members when each of its fields is told once.** -/
theorem ofTree?_eq_some (hkeys : Tree.NamedKeys members) (htells : members.all fun m => m.1.tells)
    {s : Selection} : ofTree? (.record members) = some s ↔ s.ToldBy members := by
  rw [ofTree?, Tree.fields_record hkeys, if_pos htells, fieldNames]
  constructor
  · intro h
    obtain ⟨values, hvalues, h⟩ := Option.bind_eq_some_iff.1 h
    -- Every field is there once, and the five of them are texts.
    have hforall := mapM_eq_some_iff_forall₂.1 hvalues
    split at h
    · simp only [List.forall₂_cons, Tree.atMostOne_eq_some_some] at hforall
      obtain ⟨hdate, hhour, hparam, hsurface, hlevel, -⟩ := hforall
      simp only [Option.bind_eq_bind, Option.bind_eq_some_iff, Tree.text?_eq_some,
        Option.some.injEq] at h
      obtain ⟨date, rfl, hour, rfl, param, rfl, surface, rfl, level, rfl, rfl⟩ := h
      exact ⟨hdate, hhour, hparam, hsurface, hlevel⟩
    · simp at h
  · rintro ⟨hdate, hhour, hparam, hsurface, hlevel⟩
    -- The other way round all five lookups succeed, and so does reading.
    have hvalues : ["date", "hour", "param", "surface", "level"].mapM
        (fun name => Tree.atMostOne (Tree.valuesOf members name)) =
        some [some (.text s.date), some (.text s.hour), some (.text s.param),
          some (.text s.surface), some (.text s.level)] := by
      rw [mapM_eq_some_iff_forall₂]
      simp [Tree.atMostOne_eq_some_some, hdate, hhour, hparam, hsurface, hlevel]
    rw [hvalues]
    rfl

end Selection

namespace Configuration

/-- Each field of the configuration besides those of its selection is told exactly
once, with its value. -/
structure ToldBy (members : List (Key × Tree)) (c : Configuration) : Prop where
  projection : Tree.valuesOf members "projection" = [.text c.projection]
  orientation : Tree.valuesOf members "orientation" = [.text c.orientation]
  overlayType : Tree.valuesOf members "overlayType" = [.text c.overlayType]
  showGridPoints : Tree.valuesOf members "showGridPoints" = [.bool c.showGridPoints]
  topology : Tree.valuesOf members "topology" = [.text c.topology]

/-- All members but a configuration's own fields are readable, nested at most `depth` times. -/
def OthersReadable (depth : Nat) (members : List (Key × Tree)) : Prop :=
  ∀ m ∈ members, isOther m → m.1 ≠ .unreadable ∧ m.2.readableWithin depth

/-- The members that are none of the own fields have the same values under all other names. -/
theorem valuesOf_others {name : String} (hname : name ∉ fieldNames) :
    Tree.valuesOf (members.filter isOther) name = Tree.valuesOf members name :=
  Tree.valuesOf_filter fun v => by simp [isOther, hname]

/-- A selection is told by the members that are none of the own fields. -/
theorem toldBy_others {s : Selection} :
    s.ToldBy (members.filter isOther) ↔ s.ToldBy members := by
  have hvalues : ∀ name ∈ Selection.fieldNames,
      Tree.valuesOf (members.filter isOther) name = Tree.valuesOf members name := fun name hname =>
    valuesOf_others ((by decide : ∀ name ∈ Selection.fieldNames, name ∉ fieldNames) name hname)
  -- The fields of a selection are none of a configuration, so all of them are among the others.
  simp only [Selection.fieldNames, List.forall_mem_cons] at hvalues
  obtain ⟨hdate, hhour, hparam, hsurface, hlevel, -⟩ := hvalues
  constructor
  · rintro ⟨h₁, h₂, h₃, h₄, h₅⟩
    exact ⟨hdate ▸ h₁, hhour ▸ h₂, hparam ▸ h₃, hsurface ▸ h₄, hlevel ▸ h₅⟩
  · rintro ⟨h₁, h₂, h₃, h₄, h₅⟩
    exact ⟨hdate ▸ h₁, hhour ▸ h₂, hparam ▸ h₃, hsurface ▸ h₄, hlevel ▸ h₅⟩

/-- Own fields always have a key that is told, so only the others may be unreadable. -/
theorem othersReadable_iff (hkeys : Tree.NamedKeys members) {depth : Nat} :
    OthersReadable depth members ↔
      (members.filter isOther).all (fun m => m.2.readableWithin depth) ∧
        members.all fun m => m.1.tells := by
  rw [List.all_eq_true, List.all_eq_true]
  constructor
  · intro h
    refine ⟨fun m hm => ?_, fun m hm => ?_⟩
    · obtain ⟨hmem, hother⟩ := List.mem_filter.1 hm
      exact (h m hmem hother).2
    · -- A key that is no text is unreadable, and then so is the record.
      rcases hkeys m hm with heq | ⟨name, heq⟩
      · exact absurd heq (h m hm (by simp [isOther, heq])).1
      · rw [heq]
        rfl
  · rintro ⟨hreadable, htells⟩ m hm hother
    refine ⟨fun heq => ?_, hreadable m (List.mem_filter.2 ⟨hm, hother⟩)⟩
    have htold := htells m hm
    rw [heq] at htold
    exact absurd htold (by decide)

/-- What there is of a selection among readable members. -/
theorem selection_of_others (hkeys : Tree.NamedKeys members)
    (htells : members.all fun m => m.1.tells) (s : Selection) :
    Selection.ofTree? (.record (members.filter isOther)) = some s ↔ s.ToldBy members := by
  have hothers : Tree.NamedKeys (members.filter isOther) := fun m hm =>
    hkeys m (List.mem_of_mem_filter hm)
  have hothersTell : (members.filter isOther).all fun m => m.1.tells :=
    List.all_eq_true.2 fun m hm => List.all_eq_true.1 htells m (List.mem_of_mem_filter hm)
  exact (Selection.ofTree?_eq_some hothers hothersTell).trans toldBy_others

/-- **What reading a record finds**, whatever the order of its members. -/
theorem ofTree?_eq_some (hkeys : Tree.NamedKeys members) {depth : Nat} {c : Configuration} :
    ofTree? depth (.record members) = some c ↔
      OthersReadable depth members ∧ c.ToldBy members ∧
        ∀ s, c.selection = some s ↔ s.ToldBy members := by
  rw [othersReadable_iff hkeys]
  -- The members that are no fields of a configuration are held back until all have been read.
  by_cases hreadable : (members.filter isOther).all fun m => m.2.readableWithin depth
  · by_cases htells : members.all fun m => m.1.tells
    · have hselection := selection_of_others hkeys htells
      simp only [ofTree?, hreadable, htells, Tree.fields_record hkeys, fieldNames, true_and]
      constructor
      · intro h
        obtain ⟨values, hvalues, h⟩ := Option.bind_eq_some_iff.1 h
        -- Every field is there once; the selection is what the other members are read as.
        have hforall := mapM_eq_some_iff_forall₂.1 hvalues
        split at h
        · simp only [List.forall₂_cons, Tree.atMostOne_eq_some_some] at hforall
          obtain ⟨hprojection, horientation, hoverlay, hgrid, htopology, -⟩ := hforall
          simp only [Option.bind_eq_bind, Option.bind_eq_some_iff, Tree.text?_eq_some,
            Tree.bool?_eq_some, Option.some.injEq] at h
          obtain ⟨projection, rfl, orientation, rfl, overlay, rfl, grid, rfl, topology, rfl,
            rfl⟩ := h
          exact ⟨⟨hprojection, horientation, hoverlay, hgrid, htopology⟩, hselection⟩
        · simp at h
      · rintro ⟨⟨hprojection, horientation, hoverlay, hgrid, htopology⟩, hselected⟩
        have hvalues : fieldNames.mapM
            (fun name => Tree.atMostOne (Tree.valuesOf members name)) =
            some [some (.text c.projection), some (.text c.orientation),
              some (.text c.overlayType), some (.bool c.showGridPoints),
              some (.text c.topology)] := by
          rw [mapM_eq_some_iff_forall₂]
          simp [fieldNames, Tree.atMostOne_eq_some_some, hprojection, horientation, hoverlay,
            hgrid, htopology]
        have hsame : Selection.ofTree? (.record (members.filter isOther)) = c.selection :=
          Option.ext fun s => (hselection s).trans (hselected s).symm
        rw [fieldNames] at hvalues
        rw [hvalues, hsame]
        rfl
    · simp [ofTree?, hreadable, htells, Tree.fields_record hkeys]
  · simp [ofTree?, hreadable]

/-! ### Configurations that are written -/

/-- What is written of a configuration are texts, truth values and null. -/
theorem readable_toJson (c : Configuration) : c.toJson.Readable := by
  obtain ⟨selection, projection, orientation, overlayType, showGridPoints, topology⟩ := c
  cases selection
  all_goals
    refine .object ?_
    simp [Selection.toMembers, Json.Readable.text, Json.Readable.bool]

/-- **A configuration that is written as JSON is read back.** -/
theorem ofJsonTree?_toJson (c : Configuration) : ofJsonTree? c.toJson.toTree = some c := by
  obtain ⟨selection, projection, orientation, overlayType, showGridPoints, topology⟩ := c
  cases selection
  all_goals rfl

/-! ### Texts -/

/-- **A configuration survives JSON, and a JSON object is read by how often its fields are told.**
Reading succeeds when the five fields that every configuration has are told once each and all
other members are readable.  What is read are the values told, and there is a selection when its
fields are told once each, too; a selection told in part is none. -/
theorem readJson_told :
    (∀ c : Configuration, readJson ofJsonTree? (String.ofList c.toJson.compact) = .ok c) ∧
    ∀ (text : String) (members : List (Key × Tree)), Tree.ofJson? text = some (.record members) →
      ((∃ c, readJson ofJsonTree? text = .ok c) ↔
        OthersReadable (Json.greatestDepth - 1) members ∧ ∃ c, ToldBy members c) ∧
      ∀ c, readJson ofJsonTree? text = .ok c →
        c.ToldBy members ∧ ∀ s, c.selection = some s ↔ s.ToldBy members := by
  refine ⟨fun c => ?_, fun text members htree => ?_⟩
  · exact readJson_eq_ok.2 ⟨_, Tree.ofJson?_compact c.readable_toJson, c.ofJsonTree?_toJson⟩
  · have hkeys := Tree.namedKeys_of_ofJson? htree
    -- The text is parsed already, so that only its members are left to be read.
    have hread : ∀ c, readJson ofJsonTree? text = .ok c ↔
        OthersReadable (Json.greatestDepth - 1) members ∧ c.ToldBy members ∧
          ∀ s, c.selection = some s ↔ s.ToldBy members := by
      intro c
      rw [readJson_eq_ok, htree]
      simp only [Option.some.injEq, exists_eq_left']
      exact ofTree?_eq_some hkeys
    refine ⟨⟨fun ⟨c, hc⟩ => ?_, fun ⟨hreadable, c, hc⟩ => ?_⟩, fun c hc => ((hread c).1 hc).2⟩
    · obtain ⟨hreadable, htold, -⟩ := (hread c).1 hc
      exact ⟨hreadable, c, htold⟩
    · -- The selection is no matter of choice: it is what the other members are read as.
      have htells := ((othersReadable_iff hkeys).1 hreadable).2
      refine ⟨{ c with selection := Selection.ofTree? (.record (members.filter isOther)) }, ?_⟩
      refine (hread _).2 ⟨hreadable, ?_, selection_of_others hkeys htells⟩
      exact ⟨hc.projection, hc.orientation, hc.overlayType, hc.showGridPoints, hc.topology⟩

/-- A record in another order, of whose selection only the date is told. -/
theorem readJson_told_shuffled :
    ∃ members c, readJson ofJsonTree? ("\x7b\"topology\":\"t\",\"date\":\"current\",\"x\":[1]," ++
      "\"showGridPoints\":true,\"overlayType\":\"wind\"," ++
      "\"orientation\":\"\",\"projection\":\"p\"\x7d") =
        .ok c ∧ c.ToldBy members ∧ c.selection = none := by
  have htree : Tree.ofJson? ("\x7b\"topology\":\"t\",\"date\":\"current\",\"x\":[1]," ++
      "\"showGridPoints\":true,\"overlayType\":\"wind\"," ++
      "\"orientation\":\"\",\"projection\":\"p\"\x7d") =
      some (.record [(.text "topology", .text "t"), (.text "date", .text "current"),
        (.text "x", .list [.natural 1]), (.text "showGridPoints", .bool true),
        (.text "overlayType", .text "wind"), (.text "orientation", .text ""),
        (.text "projection", .text "p")]) := by
    cbv
  obtain ⟨hread, htold⟩ := readJson_told.2 _ _ htree
  have hothers : OthersReadable (Json.greatestDepth - 1) _ :=
    (othersReadable_iff (Tree.namedKeys_of_ofJson? htree)).2 ⟨rfl, rfl⟩
  obtain ⟨c, hc⟩ := hread.2 ⟨hothers, ⟨none, "p", "", "wind", true, "t"⟩, rfl, rfl, rfl, rfl, rfl⟩
  obtain ⟨hfields, hselection⟩ := htold c hc
  -- One field of a selection is there, but not the other four.
  refine ⟨_, c, hc, hfields, Option.eq_none_iff_forall_ne_some.2 fun s hs => ?_⟩
  exact absurd ((hselection s).1 hs).hour (by simp [Tree.valuesOf])

/-- A member that is passed over otherwise makes reading fail if it has no value: told exactly
once is not enough. -/
theorem not_readJson_iff_told :
    ¬∀ (text : String) (members : List (Key × Tree)),
      Tree.ofJson? text = some (.record members) →
        ((∃ c, readJson ofJsonTree? text = .ok c) ↔ ∃ c, ToldBy members c) := by
  intro h
  have htree : Tree.ofJson? ("\x7b\"projection\":\"a\",\"orientation\":\"\",\"overlayType\":" ++
      "\"default\",\"showGridPoints\":false,\"topology\":\"t\",\"x\":1e2147483648\x7d") =
      some (.record [(.text "projection", .text "a"), (.text "orientation", .text ""),
        (.text "overlayType", .text "default"), (.text "showGridPoints", .bool false),
        (.text "topology", .text "t"), (.text "x", .unreadable)]) := by
    cbv
  obtain ⟨c, hc⟩ :=
    (h _ _ htree).2 ⟨⟨none, "a", "", "default", false, "t"⟩, rfl, rfl, rfl, rfl, rfl⟩
  obtain ⟨t, ht, hread⟩ := readJson_eq_ok.1 hc
  rw [htree] at ht
  obtain rfl := Option.some.inj ht
  exact Option.some_ne_none c (hread.symm.trans rfl)

end Configuration
end GlobeView

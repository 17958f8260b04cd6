/-
# Fields of records

What a reader finds of the fields of a record depends on how often a field is
told and on nothing else: once or too often (`atMostOne_eq_some_some`,
`atMostOne_eq_none`), or never.  So neither the order of the members matters
(`fields_of_perm`), nor do members that tell none of the fields.

Where every key is a text or unreadable, as in JSON, a field is told by its name
alone, and `valuesOf` lists the values that stand under a name.
-/

import GlobeView.Document.Tree
import Mathlib.Data.List.Forall2
import Mathlib.Data.List.Nodup
import Mathlib.Data.List.Perm.Basic

namespace GlobeView

/-! ### Reading every element of a list -/

section

variable {α β : Type} {read : α → Option β}

/-- A list is read when each of its elements is. -/
theorem mapM_eq_some_iff_forall₂ {as : List α} {bs : List β} :
    as.mapM read = some bs ↔ List.Forall₂ (fun a b => read a = some b) as bs := by
  induction as generalizing bs with
  | nil =>
    rw [List.mapM_nil, List.forall₂_nil_left_iff]
    exact ⟨fun h => (Option.some.inj h).symm, fun h => h ▸ rfl⟩
  | cons a as ih =>
    rw [List.mapM_cons, List.forall₂_cons_left_iff]
    simp only [Option.bind_eq_bind, Option.bind_eq_some_iff, Option.pure_def, Option.some.injEq, ih]
    constructor
    · rintro ⟨b, hb, bs', hbs, rfl⟩
      exact ⟨b, bs', hb, hbs, rfl⟩
    · rintro ⟨b, bs', hb, hbs, rfl⟩
      exact ⟨b, hb, bs', hbs, rfl⟩

/-- Lists whose elements are read alike are read alike. -/
theorem mapM_congr {γ : Type} {read' : γ → Option β} {as : List α} {cs : List γ}
    (h : List.Forall₂ (fun a c => read a = read' c) as cs) : as.mapM read = cs.mapM read' := by
  induction h with
  | nil => rfl
  | cons ha _ ih => rw [List.mapM_cons, List.mapM_cons, ha, ih]

/-- A list with an element that is not read is not read. -/
theorem mapM_eq_none {as : List α} {a : α} (hmem : a ∈ as) (ha : read a = none) :
    as.mapM read = none := by
  induction as with
  | nil => exact absurd hmem List.not_mem_nil
  | cons c cs ih =>
    rw [List.mapM_cons]
    -- It fails at the first element already, or later on.
    rcases List.mem_cons.1 hmem with rfl | hmem
    · rw [ha]
      rfl
    · rw [ih hmem]
      cases read c
      all_goals rfl

/-- Elements that are read in another order are read to the same values in another order. -/
theorem mapM_perm {as as' : List α} {bs : List β} (h : as.Perm as') (hbs : as.mapM read = some bs) :
    ∃ bs', as'.mapM read = some bs' ∧ bs.Perm bs' := by
  obtain ⟨bs', hbs', hperm⟩ :=
    List.perm_comp_forall₂ h.symm (mapM_eq_some_iff_forall₂.1 hbs)
  exact ⟨bs', mapM_eq_some_iff_forall₂.2 hbs', hperm.symm⟩

end

namespace Tree

/-! ### Scalars -/

/-- Only a text is read as a text. -/
theorem text?_eq_some {t : Tree} {s : String} : t.text? = some s ↔ t = .text s := by
  cases t
  all_goals simp [text?]

/-- Only a truth value is read as a truth value. -/
theorem bool?_eq_some {t : Tree} {b : Bool} : t.bool? = some b ↔ t = .bool b := by
  cases t
  all_goals simp [bool?]

/-! ### Values told once -/

/-- A field that is told once has the value that it is told with. -/
theorem atMostOne_eq_some_some {ts : List Tree} {t : Tree} :
    atMostOne ts = some (some t) ↔ ts = [t] := by
  match ts with
  | [] => simp [atMostOne]
  | [t'] => simp [atMostOne]
  | _ :: _ :: _ => simp [atMostOne]

/-- A field that is told twice or more often is refused. -/
theorem atMostOne_eq_none {ts : List Tree} : atMostOne ts = none ↔ 2 ≤ ts.length := by
  match ts with
  | [] => simp [atMostOne]
  | [t'] => simp [atMostOne]
  | _ :: _ :: _ => simp [atMostOne]

/-- The order in which the values of a field stand is of no account. -/
theorem atMostOne_of_perm {ts ts' : List Tree} (h : ts.Perm ts') :
    atMostOne ts = atMostOne ts' := by
  match ts with
  | [] => rw [List.nil_perm.1 h]
  | [t] => rw [List.singleton_perm.1 h]
  | _ :: _ :: _ =>
    have hlen := h.length_eq
    rw [atMostOne_eq_none.2 (by simp), atMostOne_eq_none.2 (by simp at hlen; omega)]

/-! ### Fields by name -/

/-- The values that stand under a name, in order. -/
def valuesOf (members : List (Key × Tree)) (name : String) : List Tree :=
  (members.filter fun m => m.1 == .text name).map Prod.snd

/-- Every key is a text or unreadable. -/
def NamedKeys (members : List (Key × Tree)) : Prop :=
  ∀ m ∈ members, m.1 = .unreadable ∨ ∃ name, m.1 = .text name

section

variable {members : List (Key × Tree)}

/-- Where keys are texts, a field is told by its name, and its position never matters. -/
theorem field_eq (h : NamedKeys members) (name : String) (index : Nat) :
    field members name index = atMostOne (valuesOf members name) := by
  have hfilter : members.filter (fun m => m.1.isField name index) =
      members.filter fun m => m.1 == .text name := by
    refine List.filter_congr fun m hm => ?_
    rcases h m hm with heq | ⟨other, heq⟩
    · simp [heq, Key.isField]
    · simp [heq, Key.isField, Bool.beq_eq_decide_eq]
  rw [field, hfilter, valuesOf]

/-- Where keys are texts, every field has the value that stands under its name. -/
theorem fields_record (h : NamedKeys members) (names : List String) :
    (record members).fields names =
      if members.all fun m => m.1.tells then
        names.mapM fun name => atMostOne (valuesOf members name)
      else none := by
  rw [fields]
  simp only [field_eq h]
  -- The position that is paired with each name is not looked at.
  have hnames : names.zipIdx.mapM (fun x => atMostOne (valuesOf members x.1)) =
      names.mapM fun name => atMostOne (valuesOf members name) := by
    conv_rhs => rw [← List.zipIdx_map_fst 0 names, List.mapM_map]
    rfl
  rw [hnames]

/-! ### Members that tell no field or tell one twice -/

/-- Leaving members of other names out leaves the values of a name as they are. -/
theorem valuesOf_filter {name : String} {p : Key × Tree → Bool}
    (h : ∀ v, p (.text name, v) = true) :
    valuesOf (members.filter p) name = valuesOf members name := by
  rw [valuesOf, valuesOf, List.filter_filter]
  refine congrArg _ (List.filter_congr fun ⟨key, v⟩ _ => ?_)
  by_cases hkey : key = .text name
  · rw [hkey, h v, Bool.and_true]
  · rw [beq_false_of_ne hkey, Bool.false_and]

/-- A name with its position is one of the names. -/
theorem mem_of_mem_zipIdx {names : List String} {x : String × Nat} (h : x ∈ names.zipIdx) :
    x.1 ∈ names := by
  rw [← List.zipIdx_map_fst 0 names]
  exact List.mem_map_of_mem h

/-- A member tells nothing of the fields of another name. -/
theorem valuesOf_insert (before after : List (Key × Tree)) {name other : String} (v : Tree)
    (h : name ≠ other) :
    valuesOf (before ++ (.text name, v) :: after) other = valuesOf (before ++ after) other := by
  simp [valuesOf, h]

/-- A member under a text tells a field, so it never spoils a record. -/
theorem tells_insert {before after : List (Key × Tree)} {name : String} (v : Tree) :
    ((before ++ (.text name, v) :: after).all fun m => m.1.tells) =
      (before ++ after).all fun m => m.1.tells := by
  simp [Key.tells]

/-- **A member under another name leaves the fields as they are.** -/
theorem fields_insert {before after : List (Key × Tree)} {name : String} (v : Tree)
    {names : List String} (h : name ∉ names) :
    (record (before ++ (.text name, v) :: after)).fields names =
      (record (before ++ after)).fields names := by
  rw [fields, fields, tells_insert]
  split
  · refine mapM_congr (List.forall₂_same.2 fun x hx => ?_)
    have hne : name ≠ x.1 := fun heq => h (heq ▸ mem_of_mem_zipIdx hx)
    simp [field, Key.isField, hne]
  · rfl

/-- Of one field alone it is read whether all keys tell fields, and its value. -/
theorem fields_singleton (members : List (Key × Tree)) (name : String) :
    (record members).fields [name] =
      if members.all fun m => m.1.tells then (field members name 0).map ([·]) else none := by
  cases hfield : field members name 0
  all_goals simp [fields, hfield]

/-- A value that is put in the place of another one is told in its place. -/
theorem fields_replace (before after : List (Key × Tree)) (name : String) (v v' : Tree) :
    ((record (before ++ (.text name, v) :: after)).fields [name] = none ∧
        (record (before ++ (.text name, v') :: after)).fields [name] = none) ∨
      ((record (before ++ (.text name, v) :: after)).fields [name] = some [some v] ∧
        (record (before ++ (.text name, v') :: after)).fields [name] = some [some v']) := by
  -- The value stands between the others that tell the field, if there are any.
  have hfield : ∀ w, field (before ++ (.text name, w) :: after) name 0 =
      atMostOne ((before.filter fun m => m.1.isField name 0).map Prod.snd ++
        w :: (after.filter fun m => m.1.isField name 0).map Prod.snd) := by
    intro w
    simp [field, Key.isField]
  have hfields : ∀ w, (record (before ++ (.text name, w) :: after)).fields [name] =
      if (before ++ after).all fun m => m.1.tells then
        (atMostOne ((before.filter fun m => m.1.isField name 0).map Prod.snd ++
          w :: (after.filter fun m => m.1.isField name 0).map Prod.snd)).map ([·])
      else none := by
    intro w
    rw [fields_singleton, tells_insert, hfield]
  rw [hfields, hfields]
  generalize (before.filter fun m => m.1.isField name 0).map Prod.snd = front
  generalize (after.filter fun m => m.1.isField name 0).map Prod.snd = back
  split
  · -- It is the only one when there are none in front and none behind.
    match front, back with
    | [], [] => exact .inr ⟨rfl, rfl⟩
    | [], _ :: _ => exact .inl ⟨rfl, rfl⟩
    | [_], _ => exact .inl ⟨rfl, rfl⟩
    | _ :: _ :: _, _ => exact .inl ⟨rfl, rfl⟩
  · exact .inl ⟨rfl, rfl⟩

/-- **A field that is told twice makes all fields unreadable.** -/
theorem fields_eq_none_of_repeated {name : String} {names : List String} (hname : name ∈ names)
    (h : 2 ≤ (valuesOf members name).length) : (record members).fields names = none := by
  obtain ⟨⟨other, index⟩, hx, rfl⟩ : ∃ x ∈ names.zipIdx, x.1 = name := by
    rw [← List.zipIdx_map_fst 0 names] at hname
    exact List.mem_map.1 hname
  -- A member under the name itself tells the field, whatever its position.
  have hle : (valuesOf members other).length ≤
      (members.filter fun m => m.1.isField other index).length := by
    rw [valuesOf, List.length_map]
    refine (List.monotone_filter_right members fun m hm => ?_).length_le
    simp_all [Key.isField]
  have hfield : field members other index = none :=
    atMostOne_eq_none.2 (by rw [List.length_map]; exact Nat.le_trans h hle)
  rw [fields]
  split
  · exact mapM_eq_none hx hfield
  · rfl

/-! ### Order -/

/-- Members in another order give a name the same value. -/
theorem valuesOf_of_perm {members' : List (Key × Tree)} (h : members.Perm members')
    (name : String) : atMostOne (valuesOf members name) = atMostOne (valuesOf members' name) :=
  atMostOne_of_perm ((h.filter _).map _)

/-- Members in another order give a field the same value. -/
theorem field_of_perm {members' : List (Key × Tree)} (h : members.Perm members') (name : String)
    (index : Nat) : field members name index = field members' name index :=
  atMostOne_of_perm ((h.filter _).map _)

/-- **The fields of a record do not depend on the order of its members.** -/
theorem fields_of_perm {members' : List (Key × Tree)} (h : members.Perm members')
    (names : List String) : (record members).fields names = (record members').fields names := by
  simp only [fields, h.all_eq, field_of_perm h]

end

/-! ### Values by name -/

section

variable {α : Type} {read : Tree → Option α}

/-- A member with a name, with what is read of its value. -/
def entryOf (read : Tree → Option α) (m : Key × Tree) : Option (String × α) := do
  some (← m.1.name?, ← read m.2)

/-- An entry is a text as its key, and a value that is read. -/
theorem entryOf_eq_some {m : Key × Tree} {name : String} {x : α} :
    entryOf read m = some (name, x) ↔ m.1 = .text name ∧ read m.2 = some x := by
  obtain ⟨key, t⟩ := m
  cases key
  all_goals
    cases hread : read t
    all_goals simp [entryOf, Key.name?, hread]

/-- A record is read as a map of names when each of its members is an entry. -/
theorem namesOf_record (ms : List (Key × Tree)) :
    (record ms).namesOf read = (ms.mapM (entryOf read)).map NameMap.ofList := by
  rw [namesOf, Option.map_eq_bind]
  rfl

/-- Keys that differ give entries under names that differ. -/
theorem nodup_of_entries {ms : List (Key × Tree)} {entries : List (String × α)}
    (h : ms.mapM (entryOf read) = some entries) (hkeys : (ms.map Prod.fst).Nodup) :
    (entries.map Prod.fst).Nodup := by
  -- The keys are the names of the entries, as texts.
  have hnames : (entries.map Prod.fst).map Key.text = ms.map Prod.fst := by
    have hforall := mapM_eq_some_iff_forall₂.1 h
    clear h
    induction hforall with
    | nil => rfl
    | cons hentry _ ih =>
      rw [List.map_cons, List.map_cons, List.map_cons, (entryOf_eq_some.1 hentry).1,
        ih (List.nodup_cons.1 hkeys).2]
  exact (hnames ▸ hkeys).of_map

end

end Tree
end GlobeView

/-
# Maps and sets by name

A `NameMap` is determined by its entries alone (`NameMap.ext_mem`): they stand
in the order of their names, so no trace is left of how they came in.  Putting
an entry in removes the one that had the name before (`mem_insert`), and a map
made of a list whose names are distinct holds the entries of the list
(`mem_ofList`), in whatever order they are listed.

`StoredNames` says of a collection which names are stored in it.  For each kind
of collection, asking for a name finds out whether it is stored, however often
and wherever it stands.
-/

import GlobeView.Names
import Mathlib.Data.List.Nodup
import Mathlib.Data.List.Perm.Lattice
import Std.Data.HashSet.Lemmas
import Std.Data.TreeSet.Lemmas

namespace GlobeView

/-! ### Entries -/

section

variable {α : Type}

/-- Putting an entry in replaces the one under its name and keeps the others. -/
theorem mem_putEntry {name : String} {value : α} {entries : List (String × α)}
    (h : Ordered entries) {x : String × α} :
    x ∈ putEntry name value entries ↔ x = (name, value) ∨ (x ∈ entries ∧ x.1 ≠ name) := by
  induction entries with
  | nil => simp [putEntry]
  | cons entry rest ih =>
    obtain ⟨hhead, hrest⟩ := List.pairwise_cons.1 h
    unfold putEntry
    split
    · rename_i hlt
      -- All names from here on are behind the new one, so none of them is it.
      have hne : ∀ y ∈ entry :: rest, y.1 ≠ name := by
        intro y hy heq
        rcases List.mem_cons.1 hy with rfl | hy
        · exact String.lt_irrefl _ (heq ▸ hlt)
        · exact String.lt_irrefl _ (String.lt_trans hlt (heq ▸ hhead y hy))
      rw [List.mem_cons, and_iff_left_of_imp (hne x)]
    · split
      · rename_i hlt
        rw [List.mem_cons, List.mem_cons, ih hrest]
        -- The new entry goes further back.
        have hne : entry.1 ≠ name := fun heq => String.lt_irrefl _ (heq ▸ hlt)
        constructor
        · rintro (rfl | rfl | ⟨hx, hx'⟩)
          · exact .inr ⟨.inl rfl, hne⟩
          · exact .inl rfl
          · exact .inr ⟨.inr hx, hx'⟩
        · rintro (rfl | ⟨rfl | hx, hx'⟩)
          · exact .inr (.inl rfl)
          · exact .inl rfl
          · exact .inr (.inr ⟨hx, hx'⟩)
      · rename_i hle hle'
        -- The entry has the same name, and is replaced.
        have heq : entry.1 = name :=
          String.le_antisymm (String.not_lt.1 hle) (String.not_lt.1 hle')
        have hne : ∀ y ∈ rest, y.1 ≠ name := by
          intro y hy hyname
          exact String.lt_irrefl _ (heq.trans hyname.symm ▸ hhead y hy)
        rw [List.mem_cons, List.mem_cons]
        constructor
        · rintro (rfl | hx)
          · exact .inl rfl
          · exact .inr ⟨.inr hx, hne x hx⟩
        · rintro (rfl | ⟨rfl | hx, hx'⟩)
          · exact .inl rfl
          · exact absurd heq hx'
          · exact .inr hx

namespace NameMap

/-- No name is in a map twice, because the names are in order. -/
theorem nodup_names (map : NameMap α) : map.names.Nodup := by
  refine List.pairwise_map.2 (map.ordered.imp ?_)
  intro x y hlt heq
  exact String.lt_irrefl _ (heq ▸ hlt)

/-- **A map is determined by its entries.** -/
theorem ext_mem {a b : NameMap α} (h : ∀ x, x ∈ a.entries ↔ x ∈ b.entries) : a = b := by
  have hperm : a.entries.Perm b.entries :=
    (List.perm_ext_iff_of_nodup a.nodup_names.of_map b.nodup_names.of_map).2 h
  have heq : a.entries = b.entries := hperm.eq_of_pairwise
    (fun x y _ _ hxy hyx => absurd (String.lt_trans hxy hyx) (String.lt_irrefl _))
    a.ordered b.ordered
  cases a
  cases b
  subst heq
  rfl

/-- The names of a map are those of its entries. -/
theorem mem_names_iff {map : NameMap α} {name : String} :
    name ∈ map.names ↔ ∃ value, (name, value) ∈ map.entries := by
  simp [names]

/-- A new entry takes the place of the one that has its name. -/
theorem mem_insert {map : NameMap α} {name : String} {value : α} {x : String × α} :
    x ∈ (map.insert name value).entries ↔
      x = (name, value) ∨ (x ∈ map.entries ∧ x.1 ≠ name) :=
  mem_putEntry map.ordered

/-- Inserting adds one name. -/
theorem mem_names_insert {map : NameMap α} {name other : String} {value : α} :
    other ∈ (map.insert name value).names ↔ other = name ∨ other ∈ map.names := by
  simp only [mem_names_iff, mem_insert, Prod.mk.injEq]
  by_cases h : other = name
  · simp [h]
  · simp [h]

/-- What entries leave of a map that they are put into. -/
theorem mem_foldl_insert {entries : List (String × α)} (h : (entries.map Prod.fst).Nodup)
    {map : NameMap α} {x : String × α} :
    x ∈ (entries.foldl (fun map entry => map.insert entry.1 entry.2) map).entries ↔
      x ∈ entries ∨ (x ∈ map.entries ∧ x.1 ∉ entries.map Prod.fst) := by
  -- Entries that are put in later do not have the name of an earlier one.
  induction entries generalizing map with
  | nil => simp
  | cons entry entries ih =>
    obtain ⟨hnew, hrest⟩ := List.nodup_cons.1 h
    rw [List.foldl_cons, ih hrest, mem_insert, List.map_cons, List.mem_cons, List.mem_cons]
    constructor
    · rintro (hx | ⟨rfl | ⟨hx, hne⟩, hx'⟩)
      · exact .inl (.inr hx)
      · exact .inl (.inl rfl)
      · exact .inr ⟨hx, by simp [hne, hx']⟩
    · rintro ((rfl | hx) | ⟨hx, hne⟩)
      · exact .inr ⟨.inl rfl, hnew⟩
      · exact .inl hx
      · exact .inr ⟨.inr ⟨hx, fun heq => hne (.inl heq)⟩, fun hmem => hne (.inr hmem)⟩

/-- **A map made of entries with distinct names holds exactly them.** -/
theorem mem_ofList {entries : List (String × α)} (h : (entries.map Prod.fst).Nodup)
    {x : String × α} : x ∈ (ofList entries).entries ↔ x ∈ entries := by
  rw [ofList, mem_foldl_insert h]
  simp [empty]

/-- **The order in which entries are listed leaves no trace.** -/
theorem ofList_eq_of_perm {entries entries' : List (String × α)} (h : entries.Perm entries')
    (hnodup : (entries.map Prod.fst).Nodup) : ofList entries = ofList entries' := by
  have hnodup' : (entries'.map Prod.fst).Nodup := (h.map Prod.fst).nodup_iff.1 hnodup
  refine ext_mem fun x => ?_
  rw [mem_ofList hnodup, mem_ofList hnodup', h.mem_iff]

/-- A map is given by its entries. -/
theorem ofList_entries (map : NameMap α) : ofList map.entries = map :=
  ext_mem fun _ => mem_ofList map.nodup_names

/-- A name is in a map made of a list as soon as the list has it. -/
theorem mem_names_ofList {entries : List (String × α)} {name : String} :
    name ∈ (ofList entries).names ↔ name ∈ entries.map Prod.fst := by
  have hfold (map : NameMap α) :
      name ∈ (entries.foldl (fun map entry => map.insert entry.1 entry.2) map).names ↔
        name ∈ entries.map Prod.fst ∨ name ∈ map.names := by
    induction entries generalizing map with
    | nil => simp
    | cons entry entries ih =>
      rw [List.foldl_cons, ih, mem_names_insert, List.map_cons, List.mem_cons]
      tauto
  rw [ofList, hfold]
  simp [empty, names]

/-- A name has a value when it is one of the names. -/
theorem isSome_get?_iff {map : NameMap α} {name : String} :
    (map.get? name).isSome = true ↔ name ∈ map.names := by
  rw [get?, names]
  induction map.entries with
  | nil => simp
  | cons entry entries ih =>
    rw [List.lookup_cons, List.map_cons, List.mem_cons]
    by_cases h : name = entry.1
    · simp [h]
    · rw [beq_false_of_ne h]
      simp only [h, false_or]
      exact ih

end NameMap

end

/-! ### Collections of names -/

/-- The names stored in a collection, and that asking for a name finds out whether it is
one of them. -/
class StoredNames (γ : Type) [NameCollection γ] where
  /-- The names, in some order and possibly repeated. -/
  names : γ → List String
  contains_iff : ∀ (c : γ) (name : String), NameCollection.contains c name = true ↔ name ∈ names c

instance : StoredNames (List String) :=
  ⟨id, fun _ _ => List.contains_iff_mem⟩

instance : StoredNames (Array String) :=
  ⟨Array.toList, fun _ _ => Array.contains_iff_mem.trans Array.mem_toList_iff.symm⟩

instance {n : Nat} : StoredNames (Vector String n) :=
  ⟨Vector.toList, fun _ _ => Vector.contains_iff_mem.trans Vector.mem_toList_iff.symm⟩

instance : StoredNames (Std.HashSet String) :=
  ⟨Std.HashSet.toList, fun _ _ => Std.HashSet.contains_iff_mem.trans Std.HashSet.mem_toList.symm⟩

instance : StoredNames (Std.TreeSet String) :=
  ⟨Std.TreeSet.toList, fun _ _ => Std.TreeSet.contains_iff_mem.trans Std.TreeSet.mem_toList.symm⟩

instance : StoredNames NameSet :=
  ⟨NameMap.names, fun _ _ => NameMap.isSome_get?_iff⟩

/-- A set of names holds the names it is made of. -/
theorem NameSet.mem_names_ofNames {names : List String} {name : String} :
    name ∈ StoredNames.names (NameSet.ofNames names) ↔ name ∈ names := by
  change name ∈ (NameMap.ofList _).names ↔ _
  rw [NameMap.mem_names_ofList, List.map_map]
  simp [Function.comp_def]

end GlobeView

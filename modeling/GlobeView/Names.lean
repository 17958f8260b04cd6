/-
# Finite maps and sets of names

A `NameMap` pairs distinct names with values and keeps its entries in the order
of the names, by code point.  A `NameSet` is a map to nothing.  Which order
entries were put in, and how often, leaves no trace: the last value put under a
name is the one kept.

`NameCollection` is what the rest of the library asks of a collection of known
names: whether a name is a member.
-/

import Std.Data.HashSet.Basic
import Std.Data.TreeSet.Basic

namespace GlobeView

/-- Puts a value under a name in a list that is ordered by name. -/
def putEntry {α : Type} (name : String) (value : α) :
    List (String × α) → List (String × α)
  | [] => [(name, value)]
  | (other, kept) :: rest =>
    if name < other then (name, value) :: (other, kept) :: rest
    else if other < name then (other, kept) :: putEntry name value rest
    else (name, value) :: rest

theorem fst_of_mem_putEntry {α : Type} {name : String} {value : α} {x : String × α}
    {entries : List (String × α)} (h : x ∈ putEntry name value entries) :
    x.1 = name ∨ x ∈ entries := by
  induction entries with
  | nil => simp_all [putEntry]
  | cons entry rest ih =>
    unfold putEntry at h
    split at h
    · rcases List.mem_cons.1 h with rfl | h
      · exact .inl rfl
      · exact .inr h
    · split at h
      · rcases List.mem_cons.1 h with rfl | h
        · exact .inr (List.mem_cons_self ..)
        · exact (ih h).imp_right (List.mem_cons_of_mem _)
      · rcases List.mem_cons.1 h with rfl | h
        · exact .inl rfl
        · exact .inr (List.mem_cons_of_mem _ h)

/-- Entries stand in the order of their names, each name once. -/
def Ordered {α : Type} (entries : List (String × α)) : Prop :=
  entries.Pairwise fun a b => a.1 < b.1

theorem ordered_putEntry {α : Type} (name : String) (value : α)
    {entries : List (String × α)} (h : Ordered entries) :
    Ordered (putEntry name value entries) := by
  induction entries with
  | nil => simp [putEntry, Ordered]
  | cons entry rest ih =>
    have ⟨hhead, hrest⟩ := List.pairwise_cons.1 h
    unfold putEntry
    split
    · rename_i hlt
      refine List.pairwise_cons.2 ⟨fun x hx => ?_, h⟩
      rcases List.mem_cons.1 hx with rfl | hx
      · exact hlt
      · exact String.lt_trans hlt (hhead x hx)
    · rename_i hnot
      split
      · rename_i hlt
        refine List.pairwise_cons.2 ⟨fun x hx => ?_, ih hrest⟩
        rcases fst_of_mem_putEntry hx with heq | hx
        · exact heq ▸ hlt
        · exact hhead x hx
      · rename_i hnot'
        have heq : name = entry.1 :=
          String.le_antisymm (String.not_lt.1 hnot') (String.not_lt.1 hnot)
        exact List.pairwise_cons.2 ⟨fun x hx => heq ▸ hhead x hx, hrest⟩

/-- Values under distinct names, in the order of the names. -/
structure NameMap (α : Type) where
  entries : List (String × α)
  ordered : Ordered entries

namespace NameMap

variable {α : Type}

/-- The map without entries. -/
def empty : NameMap α :=
  ⟨[], List.Pairwise.nil⟩

instance : Inhabited (NameMap α) :=
  ⟨empty⟩

/-- The map with `value` under `name`, whatever was there before. -/
def insert (map : NameMap α) (name : String) (value : α) : NameMap α :=
  ⟨putEntry name value map.entries, ordered_putEntry name value map.ordered⟩

/-- The map that holds the given entries; of equal names the last one counts. -/
def ofList (entries : List (String × α)) : NameMap α :=
  entries.foldl (fun map entry => map.insert entry.1 entry.2) empty

/-- The value under a name. -/
def get? (map : NameMap α) (name : String) : Option α :=
  map.entries.lookup name

/-- The names, in order. -/
def names (map : NameMap α) : List String :=
  map.entries.map Prod.fst

/-- The number of names. -/
def size (map : NameMap α) : Nat :=
  map.entries.length

instance [DecidableEq α] : DecidableEq (NameMap α) := fun a b =>
  decidable_of_iff (a.entries = b.entries) (by cases a; cases b; simp)

end NameMap

/-- A set of names. -/
abbrev NameSet :=
  NameMap Unit

/-- The set of the names in a list. -/
def NameSet.ofNames (names : List String) : NameSet :=
  NameMap.ofList (names.map fun name => (name, ()))

/-- A collection that can be asked whether a name is in it. -/
class NameCollection (γ : Type) where
  contains : γ → String → Bool

instance : NameCollection (List String) :=
  ⟨fun names name => names.contains name⟩

instance : NameCollection (Array String) :=
  ⟨fun names name => names.contains name⟩

instance {n : Nat} : NameCollection (Vector String n) :=
  ⟨fun names name => names.contains name⟩

instance : NameCollection (Std.HashSet String) :=
  ⟨fun names name => names.contains name⟩

instance : NameCollection (Std.TreeSet String) :=
  ⟨fun names name => names.contains name⟩

instance : NameCollection NameSet :=
  ⟨fun names name => (names.get? name).isSome⟩

end GlobeView

/-
# Documents in another order

`Tree.Reordered` relates two documents that differ in the order of the members
of their records, at any depth.  A reader is invariant when it does not tell
such documents apart.

Readers of scalars are, since a scalar has no order.  The readers that are made
of others are, when those are: of an optional value (`invariant_optional`), of a
list (`invariant_listOf`), and of anything that is made of the fields of a
record or list (`invariant_fields`).
-/

import GlobeView.Proofs.Document.Fields
import GlobeView.Proofs.Names
import Mathlib.Data.Option.Basic

namespace GlobeView
namespace Tree

/-- The second document is the first one with the members of its records in other orders. -/
inductive Reordered : Tree → Tree → Prop
  | refl (t : Tree) : Reordered t t
  | list {items items' : List Tree} (h : List.Forall₂ Reordered items items') :
      Reordered (.list items) (.list items')
  | record {ms mid ms' : List (Key × Tree)} (hkeys : ms.map Prod.fst = mid.map Prod.fst)
      (hvalues : List.Forall₂ Reordered (ms.map Prod.snd) (mid.map Prod.snd))
      (hperm : mid.Perm ms') : Reordered (.record ms) (.record ms')

/-- Members of one key, the values of which are in other orders. -/
def MemberReordered (m m' : Key × Tree) : Prop :=
  m.1 = m'.1 ∧ Reordered m.2 m'.2

/-- Members with the same keys and reordered values are reordered one by one. -/
theorem memberReordered_of_map {ms mid : List (Key × Tree)}
    (hkeys : ms.map Prod.fst = mid.map Prod.fst)
    (hvalues : List.Forall₂ Reordered (ms.map Prod.snd) (mid.map Prod.snd)) :
    List.Forall₂ MemberReordered ms mid := by
  rw [List.forall₂_map_left_iff, List.forall₂_map_right_iff] at hvalues
  induction hvalues with
  | nil => exact .nil
  | cons hvalue _ ih =>
    obtain ⟨hkey, hkeys⟩ := List.cons.inj hkeys
    exact .cons ⟨hkey, hvalue⟩ (ih hkeys)

/-- Records are reordered when their members are, and then are put in another order. -/
theorem reordered_record {ms mid ms' : List (Key × Tree)}
    (h : List.Forall₂ MemberReordered ms mid) (hperm : mid.Perm ms') :
    Reordered (.record ms) (.record ms') := by
  refine .record ?_ ?_ hperm
  · rw [← List.forall₂_eq_eq_eq, List.forall₂_map_left_iff, List.forall₂_map_right_iff]
    exact h.imp fun _ _ hm => hm.1
  · rw [List.forall₂_map_left_iff, List.forall₂_map_right_iff]
    exact h.imp fun _ _ hm => hm.2

/-- Members chosen by their keys. -/
theorem filter_reordered {ms mid : List (Key × Tree)} (h : List.Forall₂ MemberReordered ms mid)
    (p : Key → Bool) :
    List.Forall₂ MemberReordered (ms.filter fun m => p m.1) (mid.filter fun m => p m.1) :=
  List.rel_filter (fun _ _ hm => iff_of_eq (congrArg (p · = true) hm.1)) h

/-! ### What may be read at all -/

/-- Reordering makes no tree readable or unreadable. -/
theorem readableWithin_reordered {t t' : Tree} (h : Reordered t t') (depth : Nat) :
    t.readableWithin depth = t'.readableWithin depth := by
  -- On the depth, since the items and members of a tree are read with one less.
  induction depth generalizing t t' with
  | zero =>
    cases h
    all_goals rfl
  | succ depth ih =>
    cases h with
    | refl => rfl
    | list h =>
      rw [readableWithin, readableWithin]
      induction h with
      | nil => rfl
      | cons hitem _ ihitems => rw [List.all_cons, List.all_cons, ih hitem, ihitems]
    | record hkeys hvalues hperm =>
      rw [readableWithin, readableWithin, ← hperm.all_eq]
      have hmembers := memberReordered_of_map hkeys hvalues
      clear hkeys hvalues hperm
      induction hmembers with
      | nil => rfl
      | cons hm _ ihmembers => rw [List.all_cons, List.all_cons, hm.1, ih hm.2, ihmembers]

/-! ### Fields -/

/-- A field that is told once is told once by reordered values, and with a reordered one. -/
theorem atMostOne_reordered {ts ts' : List Tree} (h : List.Forall₂ Reordered ts ts') :
    Option.Rel (Option.Rel Reordered) (atMostOne ts) (atMostOne ts') := by
  match h with
  | .nil => exact .some .none
  | .cons ht .nil => exact .some (.some ht)
  | .cons _ (.cons _ _) => exact .none

/-- Reordered members tell a field as often, with a reordered value. -/
theorem field_reordered {ms mid : List (Key × Tree)} (h : List.Forall₂ MemberReordered ms mid)
    (name : String) (index : Nat) :
    Option.Rel (Option.Rel Reordered) (field ms name index) (field mid name index) := by
  refine atMostOne_reordered ?_
  rw [List.forall₂_map_left_iff, List.forall₂_map_right_iff]
  exact (filter_reordered h (Key.isField name index)).imp fun _ _ hm => hm.2

/-- Readers that read each element to related values, or both to none, read related lists. -/
theorem mapM_rel {α β γ : Type} {R : β → γ → Prop} {f : α → Option β} {g : α → Option γ}
    (h : ∀ a, Option.Rel R (f a) (g a)) (as : List α) :
    Option.Rel (List.Forall₂ R) (as.mapM f) (as.mapM g) := by
  induction as with
  | nil => exact .some .nil
  | cons a as ih =>
    have ha := h a
    rw [List.mapM_cons, List.mapM_cons]
    generalize f a = b at ha
    generalize g a = c at ha
    generalize as.mapM f = bs at ih
    generalize as.mapM g = cs at ih
    -- Both fail at the front, or both go on; what follows is related likewise.
    cases ha with
    | none => exact .none
    | some hb =>
      cases ih with
      | none => exact .none
      | some hbs => exact .some (.cons hb hbs)

/-- Every tree, and no tree, is a reordering of itself. -/
theorem optionRel_refl (o : Option Tree) : Option.Rel Reordered o o := by
  cases o with
  | none => exact .none
  | some t => exact .some (.refl t)

/-- The value of a name that is told at most once. -/
theorem valuesOf_reordered {ms mid ms' : List (Key × Tree)}
    (h : List.Forall₂ MemberReordered ms mid) (hperm : mid.Perm ms') (name : String) :
    Option.Rel (Option.Rel Reordered) (atMostOne (valuesOf ms name))
      (atMostOne (valuesOf ms' name)) := by
  rw [← valuesOf_of_perm hperm]
  refine atMostOne_reordered ?_
  rw [valuesOf, valuesOf, List.forall₂_map_left_iff, List.forall₂_map_right_iff]
  exact (filter_reordered h fun key => key == .text name).imp fun _ _ hm => hm.2

/-- A field that is left out stands for null on both sides. -/
theorem getD_reordered {o o' : Option Tree} (h : Option.Rel Reordered o o') :
    Reordered (o.getD .null) (o'.getD .null) := by
  cases h with
  | none => exact .refl .null
  | some h => exact h

/-- **The fields of a document in another order are the same fields in other orders.** -/
theorem fields_reordered {t t' : Tree} (h : Reordered t t') (names : List String) :
    Option.Rel (List.Forall₂ (Option.Rel Reordered)) (t.fields names) (t'.fields names) := by
  cases h with
  | refl =>
    cases t.fields names with
    | none => exact .none
    | some vs => exact .some (List.forall₂_same.2 fun o _ => optionRel_refl o)
  | list h =>
    rw [fields, fields, h.length_eq]
    split
    · refine .some (List.rel_append ?_ (List.forall₂_same.2 fun o _ => optionRel_refl o))
      rw [List.forall₂_map_left_iff, List.forall₂_map_right_iff]
      exact h.imp fun _ _ => .some
    · exact .none
  | record hkeys hvalues hperm =>
    rename_i ms mid ms'
    have hmembers := memberReordered_of_map hkeys hvalues
    -- The other order is of no account, so only the reordering of the values is left.
    rw [← fields_of_perm hperm, fields, fields]
    -- The keys are the same, so they tell as many fields.
    have htells : (ms.all fun m => m.1.tells) = mid.all fun m => m.1.tells := by
      have hall := congrArg (List.all · Key.tells) hkeys
      rwa [List.all_map, List.all_map] at hall
    rw [htells]
    split
    · exact mapM_rel (fun x : String × Nat => field_reordered hmembers x.1 x.2) _
    · exact .none

/-! ### Readers -/

/-- The reader does not tell documents apart that differ in order. -/
def Invariant {α : Type} (read : Tree → Option α) : Prop :=
  ∀ {t t' : Tree}, Reordered t t' → read t = read t'

section

variable {α : Type} {read : Tree → Option α}

/-- A reader of scalars alone does not see an order. -/
theorem invariant_scalar (hlist : ∀ items, read (.list items) = none)
    (hrecord : ∀ ms, read (.record ms) = none) : Invariant read := by
  intro t t' h
  cases h with
  | refl => rfl
  | list => rw [hlist, hlist]
  | record => rw [hrecord, hrecord]

/-- Reading a text does not see an order. -/
theorem invariant_text? : Invariant text? :=
  invariant_scalar (fun _ => rfl) fun _ => rfl

/-- Reading a real does not see an order. -/
theorem invariant_real? : Invariant real? :=
  invariant_scalar (fun _ => rfl) fun _ => rfl

/-- Reading a channel does not see an order. -/
theorem invariant_channel? : Invariant channel? :=
  invariant_scalar (fun _ => rfl) fun _ => rfl

/-- A reader that sees no order sees none where null is allowed as well. -/
theorem invariant_optional (hread : Invariant read) : Invariant (optional read) := by
  intro t t' h
  cases h with
  | refl => rfl
  | list h => exact congrArg (Option.map some) (hread (.list h))
  | record hkeys hvalues hperm =>
    exact congrArg (Option.map some) (hread (.record hkeys hvalues hperm))

/-- A reader that sees no order sees none in the items of a list. -/
theorem invariant_listOf (hread : Invariant read) : Invariant (listOf read) := by
  intro t t' h
  cases h with
  | refl => rfl
  | list h => exact mapM_congr (h.imp fun _ _ hitem => hread hitem)
  | record => rfl

/-- A reader of fields is invariant when it does not tell the fields apart. -/
theorem invariant_fields {names : List String} {combine : List (Option Tree) → Option α}
    (hcombine : ∀ {vs vs' : List (Option Tree)}, List.Forall₂ (Option.Rel Reordered) vs vs' →
      combine vs = combine vs') : Invariant fun t => (t.fields names).bind combine := by
  intro t t' h
  have hfields := fields_reordered h names
  change (t.fields names).bind combine = (t'.fields names).bind combine
  generalize t.fields names = vs at hfields ⊢
  generalize t'.fields names = vs' at hfields ⊢
  cases hfields with
  | none => rfl
  | some h => exact hcombine h

/-- **Values under distinct names do not depend on the order they stand in.** -/
theorem namesOf_reordered (hread : Invariant read) {t t' : Tree} (h : Reordered t t')
    (hnames : ∀ ms, t = .record ms → (ms.map Prod.fst).Nodup) :
    t.namesOf read = t'.namesOf read := by
  cases h with
  | refl => rfl
  | list => rfl
  | record hkeys hvalues hperm =>
    rename_i ms mid ms'
    have hmid : (mid.map Prod.fst).Nodup := hkeys ▸ hnames ms rfl
    -- The reader sees no order, so the reordered values are read alike.
    have hsame : ms.mapM (entryOf read) = mid.mapM (entryOf read) := by
      refine mapM_congr ((memberReordered_of_map hkeys hvalues).imp fun m m' hm => ?_)
      rw [entryOf, entryOf, hm.1, hread hm.2]
    rw [namesOf_record, namesOf_record, hsame]
    -- Entries under different names make up one map, in whatever order they are put in.
    cases hentries : mid.mapM (entryOf read) with
    | none =>
      cases hentries' : ms'.mapM (entryOf read) with
      | none => rfl
      | some entries' =>
        obtain ⟨entries, hsome, -⟩ := mapM_perm hperm.symm hentries'
        simp [hentries] at hsome
    | some entries =>
      obtain ⟨entries', hentries', hperm'⟩ := mapM_perm hperm hentries
      rw [hentries', Option.map_some, Option.map_some,
        NameMap.ofList_eq_of_perm hperm' (nodup_of_entries hentries hmid)]

end

end Tree
end GlobeView

/-
# Records that JSON is read as

A record of a JSON text comes from members between braces, never from a scalar,
so each of its keys is a text or, where half a character stands alone in it,
unreadable (`Tree.namedKeys_of_ofJson?`).
-/

import GlobeView.Document.Text
import GlobeView.Proofs.Document.Fields
import GlobeView.Proofs.Document.Json.Token

namespace GlobeView

namespace JsonToken

/-- The token is no record read already. -/
def IsPlain (t : JsonToken) : Prop :=
  ∀ members, t ≠ .scalar (.record members)

/-- A number that is written is no list or record. -/
theorem isPlain_toTree (w : JsonNumber.Written) : IsPlain (.scalar w.toTree) := by
  intro members heq
  have htree : w.toTree = .record members := scalar.inj heq
  rw [JsonNumber.Written.toTree] at htree
  split at htree
  · rename_i t hinteger
    obtain ⟨n, rfl | rfl⟩ := JsonNumber.eq_of_integer? hinteger
    all_goals simp at htree
  · split at htree
    all_goals simp at htree

/-- A token without quotes or brackets is a scalar, with nothing inside it. -/
theorem isPlain_of_bare {cs rest : List Char} {t : JsonToken} (h : bare cs = some (t, rest)) :
    t.IsPlain := by
  rw [bare] at h
  split at h
  · rename_i word v hword
    obtain ⟨rfl, rfl⟩ := Prod.mk.inj (Option.some.inj h)
    have hmem := List.mem_of_find?_eq_some hword
    simp only [words, List.mem_cons, List.not_mem_nil, or_false, Prod.mk.injEq] at hmem
    intro members heq
    -- The three words stand for null and the two truth values.
    obtain ⟨-, rfl⟩ | ⟨-, rfl⟩ | ⟨-, rfl⟩ := hmem
    all_goals simp at heq
  · obtain ⟨⟨w, after⟩, -, heq⟩ := Option.map_eq_some_iff.1 h
    obtain ⟨rfl, -⟩ := Prod.mk.inj heq
    exact isPlain_toTree w

/-- The token in front is plain, whatever it is. -/
theorem isPlain_of_first {cs rest : List Char} {t : JsonToken} (h : first cs = some (t, rest)) :
    t.IsPlain := by
  unfold first at h
  split at h
  -- A bare token and a quoted text are read on; the other tokens are one character.
  case h_8 => exact isPlain_of_bare h
  case h_7 =>
    obtain ⟨⟨ps, after⟩, -, heq⟩ := Option.map_eq_some_iff.1 h
    obtain ⟨rfl, -⟩ := Prod.mk.inj heq
    simp [IsPlain]
  all_goals
    obtain ⟨rfl, -⟩ := Prod.mk.inj (Option.some.inj h)
    simp [IsPlain]

/-- All tokens of a text are plain. -/
theorem isPlain_of_scan {fuel : Nat} {cs : List Char} {ts : List JsonToken}
    (h : scan fuel cs = some ts) : ∀ t ∈ ts, t.IsPlain := by
  -- On the fuel, of which each token takes one unit.
  induction fuel generalizing cs ts with
  | zero =>
    rw [scan.eq_def] at h
    cases hcs : cs.dropWhile isBlank with
    | nil =>
      simp only [hcs, Option.some.injEq] at h
      simp [← h]
    | cons c cs => simp [hcs] at h
  | succ fuel ih =>
    rw [scan.eq_def] at h
    cases hcs : cs.dropWhile isBlank with
    | nil =>
      simp only [hcs, Option.some.injEq] at h
      simp [← h]
    | cons c cs =>
      simp only [hcs, Option.bind_eq_bind] at h
      obtain ⟨⟨t, after⟩, hfirst, h⟩ := Option.bind_eq_some_iff.1 h
      obtain ⟨us, hscan, rfl⟩ := Option.map_eq_some_iff.1 h
      exact List.forall_mem_cons.2 ⟨isPlain_of_first hfirst, ih hscan⟩

end JsonToken

namespace JsonReader

/-- The members between braces have quoted texts as their keys. -/
theorem namedKeys_of_members {fuel : Nat} {ts rest : List JsonToken} {ms : List (Key × Tree)}
    (h : members fuel ts = some (ms, rest)) : Tree.NamedKeys ms := by
  induction fuel generalizing ts rest ms with
  | zero => simp [members] at h
  | succ fuel ih =>
    unfold members at h
    split at h
    · rename_i fuel' name us heq
      obtain rfl := Nat.succ.inj heq
      obtain ⟨⟨v, after⟩, -, h⟩ := Option.bind_eq_some_iff.1 h
      -- A key is quoted, and unreadable only where what it quotes is no text.
      have hkey : key name = .unreadable ∨ ∃ s, key name = .text s := by
        cases name with
        | none => exact .inl rfl
        | some s => exact .inr ⟨s, rfl⟩
      split at h
      · rename_i t ts' heq
        obtain ⟨rfl, -⟩ := Prod.mk.inj (Option.some.inj h)
        exact List.forall_mem_cons.2 ⟨hkey, by simp⟩
      · obtain ⟨⟨ms', after'⟩, hmembers, heq⟩ := Option.map_eq_some_iff.1 h
        obtain ⟨rfl, -⟩ := Prod.mk.inj heq
        exact List.forall_mem_cons.2 ⟨hkey, ih hmembers⟩
      · simp at h
    · simp at h

/-- A record that is read from plain tokens has no positions as keys. -/
theorem namedKeys_of_value {fuel : Nat} {ts rest : List JsonToken} {ms : List (Key × Tree)}
    (hts : ∀ t ∈ ts, t.IsPlain) (h : value fuel ts = some (.record ms, rest)) :
    Tree.NamedKeys ms := by
  unfold value at h
  split at h
  · simp at h
  · obtain ⟨⟨vs, after⟩, -, heq⟩ := Option.map_eq_some_iff.1 h
    simp at heq
  · obtain ⟨heq, -⟩ := Prod.mk.inj (Option.some.inj h)
    obtain rfl := Tree.record.inj heq
    simp [Tree.NamedKeys]
  · obtain ⟨⟨ms', after⟩, hmembers, heq⟩ := Option.map_eq_some_iff.1 h
    obtain ⟨heq, -⟩ := Prod.mk.inj heq
    obtain rfl := Tree.record.inj heq
    exact namedKeys_of_members hmembers
  · rename_i s after
    cases s
    all_goals simp [quotedValue] at h
  · -- A token that is no mark holds no record inside it, because it is plain.
    rename_i v after
    obtain ⟨rfl, -⟩ := Prod.mk.inj (Option.some.inj h)
    exact absurd rfl (hts _ List.mem_cons_self ms)
  · simp at h

end JsonReader

/-- **The keys of a record in JSON are texts or unreadable.** -/
theorem Tree.namedKeys_of_ofJson? {text : String} {ms : List (Key × Tree)}
    (h : Tree.ofJson? text = some (.record ms)) : NamedKeys ms := by
  rw [Tree.ofJson?] at h
  obtain ⟨ts, hscan, h⟩ := Option.bind_eq_some_iff.1 h
  obtain ⟨⟨t, rest⟩, hvalue, h⟩ := Option.bind_eq_some_iff.1 h
  split at h
  · rename_i heq
    obtain ⟨rfl, -⟩ := Prod.mk.inj heq
    obtain rfl := Option.some.inj h
    exact JsonReader.namedKeys_of_value (JsonToken.isPlain_of_scan hscan) hvalue
  · simp at h

/-- A text is read when it has a tree that is read. -/
theorem readJson_eq_ok {α : Type} {read : Tree → Option α} {text : String} {x : α} :
    readJson read text = .ok x ↔ ∃ t, Tree.ofJson? text = some t ∧ read t = some x := by
  rw [readJson]
  cases htree : Tree.ofJson? text with
  | none => simp
  | some t =>
    cases hread : read t
    all_goals simp [hread]

end GlobeView

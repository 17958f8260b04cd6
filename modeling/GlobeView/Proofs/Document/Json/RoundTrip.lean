/-
# JSON that is written is read back

`Json.toTree` is the tree a value stands for.  Written without blanks, a value
is cut into its tokens (`Readable.scansTo`), and its tokens are read as its tree
(`value_tokens`), so the text of a value is read as its tree
(`Tree.ofJson?_compact`).  All of this goes along the value: a scalar is one
token, and lists and records are their parts between marks.

What may be lost on the way are numbers.  An integer has to fit in 64 bits, and
a double has to be the value of the digits it is written with (`ReadsBack`);
infinities and NaN, which are written as null, are not.
-/

import GlobeView.Document.Json.Reader
import GlobeView.Proofs.Document.Json.Token

namespace GlobeView
namespace Json

/-! ### Values that are read back -/

/-- The double is the value of the digits it is written with. -/
def ReadsBack (x : Float) : Prop :=
  ∃ w, JsonNumber.written (realText x) = some (w, []) ∧ w.toTree = .real x

/-- Whether a double is read back can be computed. -/
theorem readsBack_iff {x : Float} :
    ReadsBack x ↔ (JsonNumber.written (realText x)).any fun (w, rest) =>
      rest.isEmpty && w.integer?.isNone &&
        w.double.any fun y => decide ((if w.negative then -y else y) = x) := by
  -- A number is read as a real when it is no integer that fits 64 bits.
  have htree : ∀ w : JsonNumber.Written, w.toTree = .real x ↔
      (w.integer?.isNone && w.double.any fun y => decide ((if w.negative then -y else y) = x)) := by
    intro w
    rw [JsonNumber.Written.toTree]
    cases hinteger : w.integer? with
    | none =>
      cases w.double
      all_goals simp
    | some t =>
      have hne : t ≠ .real x := by
        obtain ⟨n, rfl | rfl⟩ := JsonNumber.eq_of_integer? hinteger
        all_goals simp
      simpa using hne
  rw [ReadsBack]
  cases JsonNumber.written (realText x) with
  | none => simp
  | some parts =>
    -- The text has to be read to its end, with nothing left over.
    obtain ⟨w, rest⟩ := parts
    simp only [Option.some.injEq, Prod.mk.injEq, Option.any_some, Bool.and_assoc]
    rw [Bool.and_eq_true, ← htree, List.isEmpty_iff]
    constructor
    · rintro ⟨w, ⟨rfl, rfl⟩, hw⟩
      exact ⟨rfl, hw⟩
    · rintro ⟨rfl, hw⟩
      exact ⟨w, ⟨rfl, rfl⟩, hw⟩

instance : DecidablePred ReadsBack :=
  fun _ => decidable_of_iff _ readsBack_iff.symm

example : ReadsBack 193.0 := by decide +kernel

/-- All numbers in the value are read back from what they are written as. -/
inductive Readable : Json → Prop where
  | null : Readable null
  | bool (b : Bool) : Readable (bool b)
  | integer {i : Int} (least_le : -9223372036854775808 ≤ i)
      (le_greatest : i ≤ 18446744073709551615) : Readable (integer i)
  | real {x : Float} (h : ReadsBack x) : Readable (real x)
  | text (s : String) : Readable (text s)
  | array {items : List Json} (h : ∀ v ∈ items, Readable v) : Readable (array items)
  | object {members : List (String × Json)} (h : ∀ m ∈ members, Readable m.2) :
      Readable (object members)

mutual

/-- The tree that a value stands for. -/
def toTree : Json → Tree
  | null => .null
  | bool b => .bool b
  | integer i => if i < 0 then .negative i.natAbs else .natural i.natAbs
  | real x => .real x
  | text s => .text s
  | array items => .list (itemTrees items)
  | object members => .record (memberTrees members)

/-- The trees of items. -/
def itemTrees : List Json → List Tree
  | [] => []
  | v :: vs => v.toTree :: itemTrees vs

/-- The trees of members, under their names. -/
def memberTrees : List (String × Json) → List (Key × Tree)
  | [] => []
  | (name, v) :: ms => (.text name, v.toTree) :: memberTrees ms

end

/-- The items of an array become trees one by one. -/
theorem itemTrees_eq_map (items : List Json) : itemTrees items = items.map toTree := by
  induction items with
  | nil => rfl
  | cons v vs ih => rw [itemTrees, ih, List.map_cons]

/-- The members of an object become trees one by one, under their names. -/
theorem memberTrees_eq_map (members : List (String × Json)) :
    memberTrees members = members.map fun m => (.text m.1, m.2.toTree) := by
  induction members with
  | nil => rfl
  | cons m ms ih => rw [memberTrees, ih, List.map_cons]

/-! ### Tokens -/

mutual

/-- The tokens that a value is written as. -/
def tokens : Json → List JsonToken
  | text s => [.quoted (some s)]
  | array items => .openArray :: (itemTokens items ++ [.closeArray])
  | object members => .openObject :: (memberTokens members ++ [.closeObject])
  | v => [.scalar v.toTree]

/-- The tokens of items, with commas between them. -/
def itemTokens : List Json → List JsonToken
  | [] => []
  | [v] => v.tokens
  | v :: vs => v.tokens ++ .comma :: itemTokens vs

/-- The tokens of members, with commas between them. -/
def memberTokens : List (String × Json) → List JsonToken
  | [] => []
  | [(name, v)] => .quoted (some name) :: .colon :: v.tokens
  | (name, v) :: ms =>
    .quoted (some name) :: .colon :: (v.tokens ++ .comma :: memberTokens ms)

end

end Json

namespace JsonToken

/-- A quoted text is one token. -/
theorem scansTo_quoted (s : String) : ScansTo (Json.quoted s) [.quoted (some s)] :=
  .token ⟨'"', rfl, rfl⟩ fun rest _ => first_quoted s rest

/-- What is read as a number to its end is one token. -/
theorem scansTo_number {cs : List Char} {w : JsonNumber.Written}
    (h : JsonNumber.written cs = some (w, [])) : ScansTo cs [.scalar w.toTree] := by
  obtain ⟨c, hc, hfront⟩ := JsonNumber.front_of_written h
  refine .token ⟨c, hc, Bool.eq_false_iff.2 fun hblank => ?_⟩ fun rest hrest => first_number h hrest
  simp only [isBlank, Bool.or_eq_true, beq_iff_eq] at hblank
  obtain ((rfl | rfl) | rfl) | rfl := hblank
  all_goals exact absurd hfront (by decide)

end JsonToken

namespace Json

/-- The digits of a natural are read as a whole number, in full. -/
theorem whole_decimalDigits (n : Nat) :
    JsonNumber.whole (decimalDigits n) = some (decimalDigits n, []) := by
  have hrun : ∀ c ∈ decimalDigits n, c.isDigit = true := fun c => isDigit_of_mem_decimalDigits
  have hend : NotInFront Char.isDigit [] := by simp [NotInFront]
  have htake := takeWhile_run_append hrun hend
  have hdrop := dropWhile_run_append hrun hend
  rw [List.append_nil] at htake hdrop
  rw [JsonNumber.whole_eq_some, List.span_eq_takeWhile_dropWhile, htake, hdrop]
  exact ⟨rfl, decimalDigits_ne_nil n, head?_decimalDigits_ne⟩

/-- An integer of 64 bits is written as a number that it is the value of. -/
theorem written_integerText {i : Int} (hleast : -9223372036854775808 ≤ i)
    (hgreatest : i ≤ 18446744073709551615) :
    ∃ w, JsonNumber.written (integerText i) = some (w, []) ∧ w.toTree = (integer i).toTree := by
  -- The digits are read to their end, with no places and no exponent behind them.
  have hmagnitude : ∀ negative, JsonNumber.magnitude negative (decimalDigits i.natAbs) =
      some (⟨negative, decimalDigits i.natAbs, none, none⟩, []) := by
    intro negative
    rw [JsonNumber.magnitude, whole_decimalDigits]
    rfl
  refine ⟨⟨decide (i < 0), decimalDigits i.natAbs, none, none⟩, ?_, ?_⟩
  · by_cases hi : i < 0
    · rw [integerText, if_pos hi, JsonNumber.written, hmagnitude, decide_eq_true hi]
    · -- An integer that is not negative begins with a digit, and not with a minus sign.
      have hminus : ∀ cs, decimalDigits i.natAbs = '-' :: cs → False := fun cs heq =>
        absurd (isDigit_of_mem_decimalDigits (heq ▸ List.mem_cons_self)) (by decide)
      rw [integerText, if_neg hi, JsonNumber.written.eq_2 _ hminus, hmagnitude, decide_eq_false hi]
  · by_cases hi : i < 0
    · have hn : 0 < i.natAbs ∧ i.natAbs ≤ 9223372036854775808 := by omega
      simp [JsonNumber.Written.toTree, JsonNumber.Written.integer?, toTree, hi, hn,
        natOfDigits_decimalDigits]
    · have hn : i.natAbs ≤ JsonNumber.greatest := by
        rw [JsonNumber.greatest]
        omega
      simp [JsonNumber.Written.toTree, JsonNumber.Written.integer?, toTree, hi, hn,
        natOfDigits_decimalDigits]

mutual

/-- **A value is cut into its tokens.** -/
theorem Readable.scansTo : {v : Json} → v.Readable → JsonToken.ScansTo v.compact v.tokens
  | .null, _ => .token ⟨'n', rfl, rfl⟩ fun rest _ => JsonToken.first_null rest
  | .bool b, _ => by
    refine .token ?_ fun rest _ => JsonToken.first_bool b rest
    cases b
    · exact ⟨'f', rfl, rfl⟩
    · exact ⟨'t', rfl, rfl⟩
  | .integer i, h => by
    cases h with
    | integer hleast hgreatest =>
      -- Integers are written so that they fit the 64 bits they are read with.
      obtain ⟨w, hw, htree⟩ := written_integerText hleast hgreatest
      have hscan := JsonToken.scansTo_number hw
      rw [htree] at hscan
      exact hscan
  | .real x, h => by
    cases h with
    | real h =>
      obtain ⟨w, hw, htree⟩ := h
      have hscan := JsonToken.scansTo_number hw
      rw [htree] at hscan
      exact hscan
  | .text s, _ => JsonToken.scansTo_quoted s
  | .array items, h => by
    cases h with
    | array h =>
      rw [compact, tokens]
      -- A bracket, the items, and a bracket.
      exact .cons rfl (fun _ => rfl) (.append (scansTo_items h) rfl (.mark rfl fun _ => rfl))
  | .object members, h => by
    cases h with
    | object h =>
      rw [compact, tokens]
      -- A brace, the members, and a brace.
      exact .cons rfl (fun _ => rfl) (.append (scansTo_members h) rfl (.mark rfl fun _ => rfl))

/-- The items of an array are scanned into their tokens, a comma before each but the first. -/
theorem scansTo_items : {items : List Json} → (∀ v ∈ items, v.Readable) →
    JsonToken.ScansTo (compactItems items) (itemTokens items)
  | [], _ => .nil
  | [v], h => (h v List.mem_cons_self).scansTo
  | v :: v' :: vs, h => by
    have hrest := scansTo_items fun x hx => h x (List.mem_cons_of_mem v hx)
    exact .append (h v List.mem_cons_self).scansTo rfl (.cons rfl (fun _ => rfl) hrest)

/-- The members of an object are scanned into their tokens, a comma before each but the first. -/
theorem scansTo_members : {members : List (String × Json)} → (∀ m ∈ members, m.2.Readable) →
    JsonToken.ScansTo (compactMembers members) (memberTokens members)
  | [], _ => .nil
  | [(name, v)], h =>
    .append (JsonToken.scansTo_quoted name) rfl
      (.cons rfl (fun _ => rfl) (h (name, v) List.mem_cons_self).scansTo)
  | (name, v) :: m :: ms, h => by
    have hrest := scansTo_members fun x hx => h x (List.mem_cons_of_mem (name, v) hx)
    -- The text is put together from the right: the rest, a comma, the value, a colon, the key.
    have hvalue := (h (name, v) List.mem_cons_self).scansTo.append rfl
      (.cons (c := ',') rfl (fun _ => rfl) hrest)
    have hmember := (JsonToken.scansTo_quoted name).append rfl
      (.cons (c := ':') rfl (fun _ => rfl) hvalue)
    have htext : compactMembers ((name, v) :: m :: ms) =
        quoted name ++ ':' :: (v.compact ++ ',' :: compactMembers (m :: ms)) := by
      simp [compactMembers]
    rw [htext]
    exact hmember

end

end Json

/-! ### Trees -/

namespace JsonReader

open Json JsonToken

/-- No value begins with a closing bracket. -/
theorem tokens_front (v : Json) : ∃ t ts, v.tokens = t :: ts ∧ t ≠ .closeArray := by
  cases v
  all_goals exact ⟨_, _, rfl, by simp⟩

/-- The tokens of an array that has items do not begin with the end of the array. -/
theorem itemTokens_front (v : Json) (vs : List Json) :
    ∃ t ts, itemTokens (v :: vs) = t :: ts ∧ t ≠ .closeArray := by
  obtain ⟨t, ts, hfront, hne⟩ := tokens_front v
  cases vs with
  | nil => exact ⟨t, ts, hfront, hne⟩
  | cons v' vs =>
    exact ⟨t, ts ++ .comma :: itemTokens (v' :: vs), by simp [itemTokens, hfront], hne⟩

/-- The tokens of an object that has members begin with the first key. -/
theorem memberTokens_front (m : String × Json) (ms : List (String × Json)) :
    ∃ ts, memberTokens (m :: ms) = .quoted (some m.1) :: ts := by
  cases ms
  all_goals exact ⟨_, rfl⟩

mutual

/-- **The tokens of a value are read as its tree.** -/
theorem value_tokens : (v : Json) → (fuel : Nat) → (ts : List JsonToken) →
    2 * v.tokens.length ≤ fuel + 1 → value fuel (v.tokens ++ ts) = some (v.toTree, ts)
  | .null, _ + 1, _, _ => rfl
  | .bool _, _ + 1, _, _ => rfl
  | .integer _, _ + 1, _, _ => rfl
  | .real _, _ + 1, _, _ => rfl
  | .text _, _ + 1, _, _ => rfl
  | .array [], _ + 1, _, _ => rfl
  | .array (v :: vs), fuel + 1, ts, h => by
    -- Two units of fuel a token are enough, as each token is looked at twice at most.
    have hlen : 2 * (itemTokens (v :: vs)).length ≤ fuel := by
      simp only [tokens, List.length_cons, List.length_append, List.length_nil] at h
      omega
    have hitems := items_tokens (v :: vs) (List.cons_ne_nil v vs) fuel ts hlen
    obtain ⟨t, us, hfront, hne⟩ := itemTokens_front v vs
    rw [hfront, List.cons_append] at hitems
    rw [tokens, hfront, List.cons_append, List.cons_append, List.cons_append, List.append_assoc,
      List.singleton_append, value.eq_2 _ _ (by simpa using hne), hitems]
    rfl
  | .object [], _ + 1, _, _ => rfl
  | .object (m :: ms), fuel + 1, ts, h => by
    have hlen : 2 * (memberTokens (m :: ms)).length ≤ fuel := by
      simp only [tokens, List.length_cons, List.length_append, List.length_nil] at h
      omega
    have hmembers := members_tokens (m :: ms) (List.cons_ne_nil m ms) fuel ts hlen
    obtain ⟨us, hfront⟩ := memberTokens_front m ms
    rw [hfront, List.cons_append] at hmembers
    rw [tokens, hfront, List.cons_append, List.cons_append, List.cons_append, List.append_assoc,
      List.singleton_append, value.eq_4 _ _ (by simp), hmembers]
    rfl

/-- The tokens of items are read as their trees. -/
theorem items_tokens : (vs : List Json) → vs ≠ [] → (fuel : Nat) → (ts : List JsonToken) →
    2 * (itemTokens vs).length ≤ fuel →
    items fuel (itemTokens vs ++ .closeArray :: ts) = some (itemTrees vs, ts)
  | [], hne, _, _, _ => absurd rfl hne
  | [v], _, 0, ts, h => by
    obtain ⟨t, us, hfront, -⟩ := tokens_front v
    simp [itemTokens, hfront] at h
  | [v], _, fuel + 1, ts, h => by
    have hvalue := value_tokens v fuel (.closeArray :: ts) (by simpa [itemTokens] using h)
    rw [itemTokens, items, hvalue]
    rfl
  | v :: v' :: vs, _, 0, ts, h => by
    simp [itemTokens] at h
  | v :: v' :: vs, _, fuel + 1, ts, h => by
    simp only [itemTokens, List.length_cons, List.length_append] at h
    -- The item ends at the comma behind it, and what is left has fuel for its own tokens.
    have hvalue := value_tokens v fuel (.comma :: (itemTokens (v' :: vs) ++ .closeArray :: ts))
      (by omega)
    have hitems := items_tokens (v' :: vs) (List.cons_ne_nil v' vs) fuel ts (by omega)
    rw [itemTokens.eq_3 _ _ (List.cons_ne_nil v' vs), List.append_assoc, List.cons_append, items,
      hvalue]
    simp only [Option.bind_eq_bind, Option.bind_some, hitems, Option.map_some]
    rfl

/-- The tokens of members are read as their trees. -/
theorem members_tokens : (ms : List (String × Json)) → ms ≠ [] → (fuel : Nat) →
    (ts : List JsonToken) → 2 * (memberTokens ms).length ≤ fuel →
    members fuel (memberTokens ms ++ .closeObject :: ts) = some (memberTrees ms, ts)
  | [], hne, _, _, _ => absurd rfl hne
  | [(name, v)], _, fuel + 1, ts, h => by
    simp only [memberTokens, List.length_cons] at h
    have hvalue := value_tokens v fuel (.closeObject :: ts) (by omega)
    rw [memberTokens, List.cons_append, List.cons_append, members, hvalue]
    rfl
  | (name, v) :: m :: ms, _, fuel + 1, ts, h => by
    simp only [memberTokens, List.length_cons, List.length_append] at h
    -- The value ends at the comma behind it, as an item does.
    have hvalue := value_tokens v fuel (.comma :: (memberTokens (m :: ms) ++ .closeObject :: ts))
      (by omega)
    have hmembers := members_tokens (m :: ms) (List.cons_ne_nil m ms) fuel ts (by omega)
    rw [memberTokens.eq_3 _ _ _ (List.cons_ne_nil m ms), List.cons_append, List.cons_append,
      List.append_assoc, List.cons_append, members, hvalue]
    simp only [Option.bind_eq_bind, Option.bind_some, hmembers, Option.map_some]
    rfl

end

end JsonReader

/-- **A value that is written is read as the tree it stands for.** -/
theorem Tree.ofJson?_compact {v : Json} (h : v.Readable) :
    Tree.ofJson? (String.ofList v.compact) = some v.toTree := by
  have hscan := h.scansTo.scan_eq String.length_ofList.ge
  have hvalue := JsonReader.value_tokens v _ [] (Nat.le_succ (2 * v.tokens.length))
  rw [List.append_nil] at hvalue
  rw [Tree.ofJson?, String.toList_ofList, hscan]
  simp only [Option.bind_eq_bind, Option.bind_some, hvalue]

end GlobeView

/-
# Tokens of written JSON

What is written is cut back into the tokens it was written for.  A quoted text
ends at its closing quote whatever follows it, since inside of it quotes are
escaped (`pieces_flatMap_escaped`).  A number has no closing mark: it ends where
no character of a number follows (`NumberEnd`), and up to there it is read in
the same way whether anything follows or not (`written_append`).

`ScansTo` says of a text which tokens it is cut into wherever it stands in front
of such an end.  Texts that do so can be put one behind the other
(`ScansTo.append`), so a document is scanned by scanning its scalars and marks.
-/

import GlobeView.Document.Json
import GlobeView.Document.Json.Token
import GlobeView.Proofs.Number.Digits
import GlobeView.Proofs.Text.Runs

namespace GlobeView

/-! ### Quoted texts -/

namespace JsonToken

/-- The digits of the base sixteen are read back. -/
theorem hexValue_hexDigit : ∀ n < 16, hexValue (Json.hexDigit n) = some n := by
  decide

/-- Characters below a blank are written by their code, which has two digits. -/
theorem fourHexDigits_of_lt {c : Char} (h : c.toNat < 32) :
    fourHexDigits '0' '0' (Json.hexDigit (c.toNat / 16)) (Json.hexDigit (c.toNat % 16)) =
      some c.toNat := by
  have hzero : hexValue '0' = some 0 := by decide
  have hhigh := hexValue_hexDigit (c.toNat / 16) (by omega)
  have hlow := hexValue_hexDigit (c.toNat % 16) (by omega)
  have hcode : c.toNat / 16 * 16 + c.toNat % 16 = c.toNat := by omega
  simp [fourHexDigits, hzero, hhigh, hlow, hcode]

/-- **An escaped character is read back as itself.** -/
theorem pieces_escaped (c : Char) (rest : List Char) :
    pieces (Json.escaped c ++ rest) =
      (pieces rest).map fun (ps, cs) => (.char c :: ps, cs) := by
  by_cases hcode : c.toNat < 32
  · by_cases hletter : c ∈ ['\x08', '\x0c', '\n', '\r', '\t']
    · -- these have an escape of one letter
      simp only [List.mem_cons, List.not_mem_nil, or_false] at hletter
      rcases hletter with rfl | rfl | rfl | rfl | rfl
      all_goals
        simp only [Json.escaped, Char.reduceEq, if_false, if_true, List.cons_append,
          List.nil_append]
        cases hrest : pieces rest
        all_goals simp [pieces, escapedChar, hrest]
    · -- the other control characters are escaped by their code
      have hquote : c ≠ '"' := by rintro rfl; exact absurd hcode (by decide)
      have hslash : c ≠ '\\' := by rintro rfl; exact absurd hcode (by decide)
      simp only [List.mem_cons, List.not_mem_nil, or_false, not_or] at hletter
      obtain ⟨h8, h12, h10, h13, h9⟩ := hletter
      have hpiece : Piece.ofCode c.toNat = .char c := by
        rw [Piece.ofCode, if_neg (by omega), Char.ofNat_toNat]
      simp only [Json.escaped, hquote, hslash, h8, h12, h10, h13, h9, hcode, if_false, if_true,
        List.cons_append, List.nil_append, pieces, fourHexDigits_of_lt hcode]
      cases hrest : pieces rest
      all_goals simp [hpiece]
  · have hcontrol : ∀ d : Char, d.toNat < 32 → c ≠ d := by
      rintro d hd rfl
      exact hcode hd
    have h8 := hcontrol '\x08' (by decide)
    have h12 := hcontrol '\x0c' (by decide)
    have h10 := hcontrol '\n' (by decide)
    have h13 := hcontrol '\r' (by decide)
    have h9 := hcontrol '\t' (by decide)
    by_cases hquote : c = '"'
    · subst hquote
      cases hrest : pieces rest
      all_goals simp [Json.escaped, pieces, escapedChar, hrest]
    · by_cases hslash : c = '\\'
      · subst hslash
        cases hrest : pieces rest
        all_goals simp [Json.escaped, pieces, escapedChar, hrest]
      · simp only [Json.escaped, hquote, hslash, h8, h12, h10, h13, h9, hcode, if_false,
          List.cons_append, List.nil_append]
        cases hrest : pieces rest
        all_goals simp [pieces, hslash, hrest, guard, Nat.not_lt.1 hcode]

/-- **An escaped text is read back up to its closing quote.** -/
theorem pieces_flatMap_escaped (cs rest : List Char) :
    pieces (cs.flatMap Json.escaped ++ '"' :: rest) = some (cs.map .char, rest) := by
  induction cs with
  | nil => rfl
  | cons c cs ih =>
    rw [List.flatMap_cons, List.append_assoc, pieces_escaped, ih]
    rfl

/-- Units that are characters are joined to the text they make up. -/
theorem join_map_char (cs : List Char) : join (cs.map .char) = some cs := by
  induction cs with
  | nil => rfl
  | cons c cs ih => rw [List.map_cons, join, ih, Option.map_some]

/-- A quoted text in front is the first token, whatever follows it. -/
theorem first_quoted (s : String) (rest : List Char) :
    first (Json.quoted s ++ rest) = some (.quoted (some s), rest) := by
  rw [Json.quoted, List.cons_append, List.append_assoc, List.singleton_append, first, quotedText,
    pieces_flatMap_escaped, Option.map_some]
  simp only [join_map_char, Option.map_some, String.ofList_toList]

end JsonToken

/-! ### Numbers -/

/-- Whether a number can go on with the character. -/
def isNumberChar (c : Char) : Bool :=
  c.isDigit || c == '.' || c == 'e' || c == 'E'

/-- Nothing in front goes on with a number. -/
abbrev NumberEnd (cs : List Char) : Prop :=
  NotInFront isNumberChar cs

namespace JsonNumber

section

variable {rest : List Char}

/-- No digit follows where a number ends. -/
theorem notInFront_isDigit (hrest : NumberEnd rest) : NotInFront Char.isDigit rest := by
  intro c hc
  have h := hrest c hc
  simp only [isNumberChar, Bool.or_eq_false_iff] at h
  exact h.1.1.1

/-- The digits before the point are a run of digits, all of it, without a superfluous zero. -/
theorem whole_eq_some {cs ds left : List Char} :
    whole cs = some (ds, left) ↔
      cs.span Char.isDigit = (ds, left) ∧ ds ≠ [] ∧ (1 < ds.length → ds.head? ≠ some '0') := by
  rw [whole]
  obtain ⟨run, after⟩ := cs.span Char.isDigit
  -- A zero in front is allowed when it stands alone.
  match run with
  | [] => grind
  | [d] => grind
  | d :: d' :: ds' =>
    by_cases hd : d = '0'
    · subst hd
      grind
    · grind

/-- What follows a number does not change its whole digits. -/
theorem whole_append (hrest : NumberEnd rest) {cs ds left : List Char}
    (h : whole cs = some (ds, left)) : whole (cs ++ rest) = some (ds, left ++ rest) := by
  obtain ⟨hspan, hds⟩ := whole_eq_some.1 h
  rw [whole_eq_some, span_append_of_notInFront (notInFront_isDigit hrest), hspan]
  exact ⟨rfl, hds⟩

/-- What follows a number does not change the digits of its exponent. -/
theorem exponentDigits_append (hrest : NumberEnd rest) {negative : Bool} {cs left : List Char}
    {e : Option (Bool × List Char)} (h : exponentDigits negative cs = some (e, left)) :
    exponentDigits negative (cs ++ rest) = some (e, left ++ rest) := by
  rw [exponentDigits, span_append_of_notInFront (notInFront_isDigit hrest)]
  rw [exponentDigits] at h
  cases hspan : cs.span Char.isDigit with
  | mk run after =>
    rw [hspan] at h
    cases run with
    | nil => simp at h
    | cons d ds =>
      obtain ⟨rfl, rfl⟩ := Prod.mk.inj (Option.some.inj h)
      rfl

/-- What follows a number does not change its places behind the point. -/
theorem places_append (hrest : NumberEnd rest) {cs left : List Char} {ds : Option (List Char)}
    (h : places cs = some (ds, left)) : places (cs ++ rest) = some (ds, left ++ rest) := by
  cases cs with
  | nil =>
    obtain ⟨rfl, rfl⟩ := Prod.mk.inj (Option.some.inj h)
    -- Nothing is left of the number itself, so what follows it decides, and that is no point.
    cases rest with
    | nil => rfl
    | cons c rest =>
      have hc : c ≠ '.' := by
        rintro rfl
        exact absurd (notInFront_cons.1 hrest) (by decide)
      simp [places, hc]
  | cons c cs =>
    by_cases hc : c = '.'
    · subst hc
      -- Behind the point the run of digits ends where the number does.
      rw [List.cons_append, places, span_append_of_notInFront (notInFront_isDigit hrest)]
      rw [places] at h
      cases hspan : cs.span Char.isDigit with
      | mk run after =>
        rw [hspan] at h
        cases run with
        | nil => simp at h
        | cons d ds =>
          obtain ⟨rfl, rfl⟩ := Prod.mk.inj (Option.some.inj h)
          rfl
    · obtain ⟨rfl, rfl⟩ : none = ds ∧ c :: cs = left := by simpa [places, hc] using h
      simp [places, hc]

/-- What follows a number does not change its exponent, nor give it one. -/
theorem exponent_append (hrest : NumberEnd rest) {cs left : List Char}
    {e : Option (Bool × List Char)} (h : exponent cs = some (e, left)) :
    exponent (cs ++ rest) = some (e, left ++ rest) := by
  cases cs with
  | nil =>
    obtain ⟨rfl, rfl⟩ := Prod.mk.inj (Option.some.inj h)
    -- What follows the number is no letter of an exponent either.
    cases rest with
    | nil => rfl
    | cons c rest =>
      have hc : ¬(c = 'e' ∨ c = 'E') := by
        rintro (rfl | rfl)
        all_goals exact absurd (notInFront_cons.1 hrest) (by decide)
      simp [exponent, hc]
  | cons c cs =>
    by_cases hc : c = 'e' ∨ c = 'E'
    · cases cs with
      | nil => simp [exponent, hc, exponentDigits] at h
      | cons d cs =>
        -- A sign, or none, and then digits, which end where the number does.
        by_cases hplus : d = '+'
        · subst hplus
          simp only [List.cons_append, exponent, if_pos hc] at h ⊢
          exact exponentDigits_append hrest h
        · by_cases hminus : d = '-'
          · subst hminus
            simp only [List.cons_append, exponent, if_pos hc] at h ⊢
            exact exponentDigits_append hrest h
          · simp only [List.cons_append, exponent, if_pos hc, List.cons.injEq, hplus, hminus,
              false_and, false_imp_iff, implies_true] at h ⊢
            exact exponentDigits_append hrest h
    · obtain ⟨rfl, rfl⟩ : none = e ∧ c :: cs = left := by simpa [exponent, hc] using h
      simp [exponent, hc]

/-- What follows a number does not change how its magnitude is read. -/
theorem magnitude_append (hrest : NumberEnd rest) {negative : Bool} {cs left : List Char}
    {w : Written} (h : magnitude negative cs = some (w, left)) :
    magnitude negative (cs ++ rest) = some (w, left ++ rest) := by
  simp only [magnitude, Option.bind_eq_bind, Option.bind_eq_some_iff, Prod.exists] at h ⊢
  obtain ⟨ds, cs₁, hwhole, ps, cs₂, hplaces, e, cs₃, hexponent, heq⟩ := h
  obtain ⟨rfl, rfl⟩ : _ = w ∧ cs₃ = left := by simpa using heq
  exact ⟨ds, _, whole_append hrest hwhole, ps, _, places_append hrest hplaces, e, _,
    exponent_append hrest hexponent, rfl⟩

/-- **What is no part of a number behind it leaves the number as it is.** -/
theorem written_append (hrest : NumberEnd rest) {cs left : List Char} {w : Written}
    (h : written cs = some (w, left)) : written (cs ++ rest) = some (w, left ++ rest) := by
  cases cs with
  | nil => simp [written, magnitude, whole] at h
  | cons c cs =>
    by_cases hc : c = '-'
    · subst hc
      exact magnitude_append hrest h
    · rw [List.cons_append, written.eq_2 _ (by simpa using hc)]
      rw [written.eq_2 _ (by simpa using hc)] at h
      exact magnitude_append hrest h

end

/-- A number begins with its minus or a digit. -/
theorem front_of_written {cs left : List Char} {w : Written} (h : written cs = some (w, left)) :
    ∃ c ∈ cs.head?, c = '-' ∨ c.isDigit = true := by
  cases cs with
  | nil => simp [written, magnitude, whole] at h
  | cons c cs =>
    refine ⟨c, rfl, ?_⟩
    -- Without a sign the text begins with the whole digits, of which there is one at least.
    by_cases hc : c = '-'
    · exact .inl hc
    · rw [written.eq_2 _ (by simpa using hc), magnitude] at h
      obtain ⟨⟨ds, after⟩, hwhole, -⟩ := Option.bind_eq_some_iff.1 h
      obtain ⟨hspan, hne, -⟩ := whole_eq_some.1 hwhole
      rw [List.span_eq_takeWhile_dropWhile] at hspan
      by_contra hnot
      refine hne ?_
      rw [← (Prod.mk.inj hspan).1, List.takeWhile_cons_of_neg (by simp_all)]

/-- An integer is read with its sign. -/
theorem eq_of_integer? {w : Written} {t : Tree} (h : w.integer? = some t) :
    ∃ n, t = .natural n ∨ t = .negative n := by
  rw [Written.integer?] at h
  split at h
  · split at h
    all_goals
      split at h
      · refine ⟨natOfDigits w.whole, ?_⟩
        simp [← Option.some.inj h]
      · simp at h
  · simp at h

end JsonNumber

/-! ### The token in front -/

namespace JsonToken

/-- **A number in front is a scalar token.** -/
theorem first_number {cs rest : List Char} {w : JsonNumber.Written}
    (h : JsonNumber.written cs = some (w, [])) (hrest : NumberEnd rest) :
    first (cs ++ rest) = some (.scalar w.toTree, rest) := by
  obtain ⟨c, hc, hfront⟩ := JsonNumber.front_of_written h
  obtain ⟨tail, rfl⟩ := List.head?_eq_some_iff.1 hc
  have hne : ∀ d : Char, d ≠ '-' → d.isDigit = false → c ≠ d := by
    rintro d hminus hdigit rfl
    exact hfront.elim hminus (by simp [hdigit])
  -- None of the words begins as a number does, so it is the number that is read.
  have hwords : words.find? (fun w => w.1.toList.isPrefixOf (c :: tail ++ rest)) = none := by
    have hn : ('n' == c) = false := beq_false_of_ne (hne 'n' (by decide) (by decide)).symm
    have ht : ('t' == c) = false := beq_false_of_ne (hne 't' (by decide) (by decide)).symm
    have hf : ('f' == c) = false := beq_false_of_ne (hne 'f' (by decide) (by decide)).symm
    simp [words, List.isPrefixOf, hn, ht, hf]
  have hbare : first (c :: tail ++ rest) = bare (c :: tail ++ rest) := by
    rw [List.cons_append, first]
    all_goals
      rintro cs heq
      exact hne _ (by decide) (by decide) (List.cons.inj heq).1
  rw [hbare, bare, hwords, JsonNumber.written_append hrest h, List.nil_append]
  rfl

/-- The word for null is one token, whatever follows it. -/
theorem first_null (rest : List Char) :
    first ("null".toList ++ rest) = some (.scalar .null, rest) := by
  rfl

/-- The word for a truth value is one token, whatever follows it. -/
theorem first_bool (b : Bool) (rest : List Char) :
    first ((if b then "true" else "false").toList ++ rest) = some (.scalar (.bool b), rest) := by
  cases b
  all_goals rfl

/-! ### Scanning -/

/-- The text is cut into the tokens in front of whatever does not go on with a number. -/
structure ScansTo (cs : List Char) (ts : List JsonToken) : Prop where
  length_le : ts.length ≤ cs.length
  scan_append : ∀ (fuel : Nat) (rest : List Char), NumberEnd rest →
    scan (fuel + ts.length) (cs ++ rest) = (scan fuel rest).map (ts ++ ·)

/-- A scan takes one token off the front and goes on with one unit of fuel less. -/
theorem scan_cons (fuel : Nat) {cs rest : List Char} {t : JsonToken} (hcs : NotInFront isBlank cs)
    (h : first cs = some (t, rest)) : scan (fuel + 1) cs = (scan fuel rest).map (t :: ·) := by
  have hdrop : cs.dropWhile isBlank = cs := dropWhile_run_append (List.forall_mem_nil _) hcs
  cases cs with
  | nil =>
    simp [first, bare, words, JsonNumber.written, JsonNumber.magnitude, JsonNumber.whole] at h
  | cons c cs =>
    simp only [scan.eq_def (fuel + 1), hdrop, h, Option.bind_eq_bind, Option.bind_some]

namespace ScansTo

variable {c : Char} {cs ds : List Char} {t : JsonToken} {ts us : List JsonToken}

/-- Nothing is scanned into no tokens. -/
theorem nil : ScansTo [] [] where
  length_le := le_rfl
  scan_append fuel rest _ := by simp

/-- One token in front of a text. -/
theorem token (hcs : ∃ c ∈ cs.head?, isBlank c = false)
    (hfirst : ∀ rest, NumberEnd rest → first (cs ++ rest) = some (t, rest)) : ScansTo cs [t] := by
  obtain ⟨c, hc, hblank⟩ := hcs
  obtain ⟨tail, rfl⟩ := List.head?_eq_some_iff.1 hc
  refine ⟨by simp, fun fuel rest hrest => ?_⟩
  exact scan_cons fuel (notInFront_cons.2 hblank) (hfirst rest hrest)

/-- A mark in front of a text. -/
theorem cons (hblank : isBlank c = false) (hfirst : ∀ rest, first (c :: rest) = some (t, rest))
    (h : ScansTo ds us) : ScansTo (c :: ds) (t :: us) where
  length_le := Nat.succ_le_succ h.length_le
  scan_append fuel rest hrest := by
    have hstep := scan_cons (fuel + us.length) (notInFront_cons.2 hblank) (hfirst (ds ++ rest))
    rw [List.cons_append, List.length_cons, ← Nat.add_assoc, hstep, h.scan_append fuel rest hrest,
      Option.map_map]
    rfl

/-- A mark alone. -/
theorem mark (hblank : isBlank c = false) (hfirst : ∀ rest, first (c :: rest) = some (t, rest)) :
    ScansTo [c] [t] :=
  nil.cons hblank hfirst

/-- **Texts scan one behind the other**, when the second does not go on with a number. -/
theorem append (h : ScansTo cs ts) (hc : isNumberChar c = false) (h' : ScansTo (c :: ds) us) :
    ScansTo (cs ++ c :: ds) (ts ++ us) where
  length_le := by
    have hts := h.length_le
    have hus := h'.length_le
    rw [List.length_append, List.length_append]
    omega
  scan_append fuel rest hrest := by
    -- The text in front ends before `c`, which belongs to no number.
    have hmid : NumberEnd (c :: ds ++ rest) := notInFront_cons.2 hc
    have hlen : fuel + (ts ++ us).length = fuel + us.length + ts.length := by
      rw [List.length_append]
      omega
    rw [hlen, List.append_assoc, h.scan_append _ _ hmid, h'.scan_append fuel rest hrest,
      Option.map_map]
    congr 1
    funext vs
    exact (List.append_assoc ts us vs).symm

/-- **A text that is cut into tokens is scanned to them**, with a step for each character. -/
theorem scan_eq (h : ScansTo cs ts) {fuel : Nat} (hfuel : cs.length ≤ fuel) :
    scan fuel cs = some ts := by
  have hscan := h.scan_append (fuel - ts.length) [] (by simp [NotInFront])
  rw [List.append_nil, Nat.sub_add_cancel (h.length_le.trans hfuel)] at hscan
  rw [hscan, scan.eq_def]
  simp

end ScansTo

end JsonToken
end GlobeView

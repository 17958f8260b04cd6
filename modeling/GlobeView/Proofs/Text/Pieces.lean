/-
# Pieces and their separators

`piecesAt` is the split of lists at an element (`piecesAt_eq_splitOn`), so pieces
that do not hold the separator are found again when they are joined by it
(`piecesAt_intercalate`).  For longer separators, `piecesAtText_append` finds the
first piece, as long as the first character of the separator is not in it, and
`piecesAtText_append_short` that there is no other, if what follows is shorter than
the separator.
-/

import GlobeView.Text.Pieces

namespace GlobeView

/-- Splitting at a character is what the library does. -/
theorem piecesAt_eq_splitOn (separator : Char) (cs : List Char) :
    piecesAt separator cs = cs.splitOn separator := by
  induction cs with
  | nil => rfl
  | cons c cs ih =>
    rw [List.splitOn_cons_eq_if_modifyHead, piecesAt, ih]
    by_cases h : c = separator
    · simp [h]
    · simp only [h, if_false, beq_iff_eq]
      -- A character that is no separator goes to the front of the first piece.
      cases hcs : cs.splitOn separator with
      | nil => exact absurd hcs (List.splitOn_ne_nil _ _)
      | cons piece pieces => rfl

/-- No piece holds the separator. -/
theorem not_mem_of_mem_piecesAt {separator : Char} {cs piece : List Char}
    (h : piece ∈ piecesAt separator cs) : separator ∉ piece := by
  induction cs generalizing piece with
  | nil =>
    obtain rfl := List.mem_singleton.1 h
    exact List.not_mem_nil
  | cons c cs ih =>
    rw [piecesAt] at h
    -- A separator begins a new piece; any other character is put into the first one.
    split at h
    · rcases List.mem_cons.1 h with rfl | h
      · exact List.not_mem_nil
      · exact ih h
    · rename_i hne
      split at h
      · rename_i hnil
        exact absurd hnil (piecesAt_ne_nil separator cs)
      · rename_i first pieces hpieces
        rw [hpieces] at ih
        rcases List.mem_cons.1 h with rfl | h
        · rw [List.mem_cons, not_or]
          exact ⟨Ne.symm hne, ih List.mem_cons_self⟩
        · exact ih (List.mem_cons_of_mem first h)

/-- **Pieces without the separator are found again when they are joined by it.** -/
theorem piecesAt_intercalate {separator : Char} {pieces : List (List Char)} (hne : pieces ≠ [])
    (h : ∀ piece ∈ pieces, separator ∉ piece) :
    piecesAt separator ([separator].intercalate pieces) = pieces := by
  rw [piecesAt_eq_splitOn, List.splitOn_intercalate separator h hne]

/-- Joining puts a separator in front of every piece but the first. -/
theorem intercalate_cons (separator : Char) (piece : List Char) (pieces : List (List Char)) :
    [separator].intercalate (piece :: pieces) = piece ++ pieces.flatMap (separator :: ·) := by
  induction pieces generalizing piece with
  | nil => simp
  | cons next pieces ih =>
    rw [List.intercalate_cons_cons, ih, List.flatMap_cons, List.append_assoc,
      List.singleton_append, List.cons_append]

/-- A text that is shorter than the separator is not cut. -/
theorem piecesAtText_of_short {separator text : List Char}
    (h : text.length < separator.length) : piecesAtText separator text = [text] := by
  induction text with
  | nil => rw [piecesAtText]
  | cons c text ih =>
    have hstart : ¬ separator.isPrefixOf (c :: text) = true := by
      intro hprefix
      exact Nat.not_le_of_lt h (List.isPrefixOf_iff_prefix.1 hprefix).length_le
    rw [List.length_cons] at h
    rw [piecesAtText, if_neg hstart, ih (by omega)]

/-- A text that begins differently does not begin with the separator. -/
theorem not_isPrefixOf_cons {c d : Char} (h : c ≠ d) (separator text : List Char) :
    ¬ (c :: separator).isPrefixOf (d :: text) = true := by
  simp [List.isPrefixOf, h]

/-- Nor is a text that does not hold the first character of the separator before that. -/
theorem piecesAtText_append_short {c : Char} {front separator rest : List Char} (h : c ∉ front)
    (hrest : rest.length ≤ separator.length) :
    piecesAtText (c :: separator) (front ++ rest) = [front ++ rest] := by
  induction front with
  | nil => exact piecesAtText_of_short (Nat.lt_succ_of_le hrest)
  | cons d front ih =>
    obtain ⟨hne, hfront⟩ := List.ne_and_not_mem_of_not_mem_cons h
    rw [List.cons_append, piecesAtText, if_neg (not_isPrefixOf_cons hne _ _), ih hfront]

/-- A text without the first character of the separator is one piece. -/
theorem piecesAtText_of_not_mem {c : Char} {text : List Char} (h : c ∉ text)
    (separator : List Char) : piecesAtText (c :: separator) text = [text] := by
  have hpieces : piecesAtText (c :: separator) (text ++ []) = [text ++ []] :=
    piecesAtText_append_short h (Nat.zero_le _)
  rwa [List.append_nil] at hpieces

/-- **The first piece ends at the first separator,** if it does not hold the character that
separators begin with. -/
theorem piecesAtText_append {c : Char} {front : List Char} (h : c ∉ front)
    (separator rest : List Char) :
    piecesAtText (c :: separator) (front ++ c :: (separator ++ rest))
      = front :: piecesAtText (c :: separator) rest := by
  induction front with
  | nil =>
    -- Without a front the separator stands right here.
    have hstart : (c :: separator).isPrefixOf (c :: (separator ++ rest)) = true :=
      List.isPrefixOf_iff_prefix.2 ⟨rest, rfl⟩
    rw [List.nil_append, piecesAtText, if_pos hstart]
    simp
  | cons d front ih =>
    obtain ⟨hne, hfront⟩ := List.ne_and_not_mem_of_not_mem_cons h
    rw [List.cons_append, piecesAtText, if_neg (not_isPrefixOf_cons hne _ _), ih hfront]

end GlobeView

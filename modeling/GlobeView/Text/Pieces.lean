/-
# Pieces of a text

`piecesAt` cuts a text at every occurrence of a character, `piecesAtText` at
every occurrence of a longer separator, taken from the left without overlaps.
There is always one piece more than there are cuts.
-/

namespace GlobeView

/-- The pieces of a text between occurrences of a character. -/
def piecesAt (separator : Char) : List Char → List (List Char)
  | [] => [[]]
  | c :: cs =>
    if c = separator then [] :: piecesAt separator cs
    else match piecesAt separator cs with
      | [] => [[c]]
      | piece :: pieces => (c :: piece) :: pieces

/-- The pieces of a text between occurrences of a separator, which has a
character at least. -/
def piecesAtText (separator : List Char) : List Char → List (List Char)
  | [] => [[]]
  | c :: cs =>
    if separator.isPrefixOf (c :: cs) then
      [] :: piecesAtText separator (cs.drop (separator.length - 1))
    else match piecesAtText separator cs with
      | [] => [[c]]
      | piece :: pieces => (c :: piece) :: pieces
termination_by cs => cs.length

/-- A text before the first occurrence of a character, and the text after it if
there is one. -/
def atFirst (separator : Char) (cs : List Char) : List Char × Option (List Char) :=
  match cs.span (· != separator) with
  | (front, []) => (front, none)
  | (front, _ :: rest) => (front, some rest)

/-- Whether `part` stands somewhere in a text. -/
def occursIn (part : List Char) : List Char → Bool
  | [] => part.isEmpty
  | c :: rest => part.isPrefixOf (c :: rest) || occursIn part rest

theorem piecesAt_ne_nil (separator : Char) (cs : List Char) : piecesAt separator cs ≠ [] := by
  induction cs with
  | nil => simp [piecesAt]
  | cons c cs ih =>
    unfold piecesAt
    split
    · simp
    · split <;> simp

/-- **Cutting and joining are inverse.** -/
theorem intercalate_piecesAt (separator : Char) (cs : List Char) :
    [separator].intercalate (piecesAt separator cs) = cs := by
  induction cs with
  | nil => simp [piecesAt, List.intercalate]
  | cons c cs ih =>
    unfold piecesAt
    have hne := piecesAt_ne_nil separator cs
    split
    · rename_i heq
      subst heq
      cases hp : piecesAt c cs with
      | nil => exact absurd hp hne
      | cons piece pieces =>
        rw [hp] at ih
        simp_all [List.intercalate, List.intersperse]
    · cases hp : piecesAt separator cs with
      | nil => exact absurd hp hne
      | cons piece pieces =>
        rw [hp] at ih
        cases pieces <;> simp_all [List.intercalate, List.intersperse]

end GlobeView

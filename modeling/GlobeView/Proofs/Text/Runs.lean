/-
# Runs of characters

A run is a stretch of characters of one class.  Where a character outside the
class follows, or nothing, `takeWhile` and `dropWhile` cut a text exactly at the
end of the run, and a text can be taken apart into a run and such a rest in one
way only (`run_append_cancel`).
-/

import Mathlib.Data.List.TakeDrop
import Mathlib.Data.List.TakeWhile

namespace GlobeView

/-- No character of the class stands in front. -/
def NotInFront (p : Char → Bool) (cs : List Char) : Prop :=
  ∀ c ∈ cs.head?, p c = false

/-- Only the first character counts. -/
theorem notInFront_cons {p : Char → Bool} {c : Char} {cs : List Char} :
    NotInFront p (c :: cs) ↔ p c = false := by
  simp [NotInFront]

/-- After a run has been dropped, none of its characters is in front. -/
theorem notInFront_dropWhile (p : Char → Bool) (cs : List Char) :
    NotInFront p (cs.dropWhile p) := by
  intro c hc
  have h := List.head?_dropWhile_not p cs
  rw [Option.mem_def.1 hc] at h
  simpa using h

/-- A run that nothing of its class follows is what the front is cut off at. -/
theorem takeWhile_run_append {p : Char → Bool} {run rest : List Char}
    (hrun : ∀ c ∈ run, p c = true) (hrest : NotInFront p rest) :
    (run ++ rest).takeWhile p = run := by
  rw [List.takeWhile_append_of_pos hrun]
  cases rest with
  | nil => simp
  | cons c cs => rw [List.takeWhile_cons_of_neg (by simp [hrest c rfl]), List.append_nil]

/-- A run is dropped up to where it ends. -/
theorem dropWhile_run_append {p : Char → Bool} {run rest : List Char}
    (hrun : ∀ c ∈ run, p c = true) (hrest : NotInFront p rest) :
    (run ++ rest).dropWhile p = rest := by
  rw [List.dropWhile_append_of_pos hrun]
  cases rest with
  | nil => rfl
  | cons c cs => rw [List.dropWhile_cons_of_neg (by simp [hrest c rfl])]

/-- A rest that does not go on with the class changes nothing in front of it. -/
theorem span_append_of_notInFront {p : Char → Bool} {rest : List Char}
    (hrest : NotInFront p rest) (cs : List Char) :
    (cs ++ rest).span p = ((cs.span p).1, (cs.span p).2 ++ rest) := by
  simp only [List.span_eq_takeWhile_dropWhile]
  induction cs with
  | nil =>
    have htake := takeWhile_run_append (List.forall_mem_nil (p · = true)) hrest
    have hdrop := dropWhile_run_append (List.forall_mem_nil (p · = true)) hrest
    rw [List.nil_append] at htake hdrop
    rw [List.nil_append, htake, hdrop]
    rfl
  | cons c cs ih =>
    obtain ⟨htake, hdrop⟩ := Prod.mk.inj ih
    -- The run stops inside the text, or goes up to its end and no further.
    by_cases hc : p c = true
    · rw [List.cons_append, List.takeWhile_cons_of_pos hc, List.dropWhile_cons_of_pos hc,
        List.takeWhile_cons_of_pos hc, List.dropWhile_cons_of_pos hc, htake, hdrop]
    · rw [List.cons_append, List.takeWhile_cons_of_neg hc, List.dropWhile_cons_of_neg hc,
        List.takeWhile_cons_of_neg hc, List.dropWhile_cons_of_neg hc]
      rfl

/-- **A run of a class and its end are determined by the text they stand in.** -/
theorem run_append_cancel {p : Char → Bool} {run run' rest rest' : List Char}
    (hrun : ∀ c ∈ run, p c = true) (hrun' : ∀ c ∈ run', p c = true)
    (hrest : NotInFront p rest) (hrest' : NotInFront p rest')
    (h : run ++ rest = run' ++ rest') : run = run' ∧ rest = rest' := by
  have hfront : run = run' := by
    rw [← takeWhile_run_append hrun hrest, h, takeWhile_run_append hrun' hrest']
  subst hfront
  exact ⟨rfl, List.append_cancel_left h⟩

end GlobeView

import Mathlib.Data.List.TakeWhile
/-!
# Runs of a class of characters

A reader that takes characters as long as they belong to a class stops where another character, or
the end, comes.  `EndsRun` names such a place; a text that ends there is taken whole and nothing
more (`takeWhile_run`, `dropWhile_run`).
-/

namespace PanelLint.Text

/-- One or more characters of a class. -/
def IsRun (p : Char → Bool) (run : List Char) : Prop := run ≠ [] ∧ ∀ c ∈ run, p c = true

/-- A text with which no run of a class goes on. -/
def EndsRun (p : Char → Bool) (rest : List Char) : Prop := ∀ c ∈ rest.head?, p c = false

variable {p : Char → Bool}

theorem endsRun_nil : EndsRun p [] := fun c hc => absurd hc (by simp)

theorem endsRun_cons {c : Char} (rest : List Char) (h : p c = false) : EndsRun p (c :: rest) := by
  intro d hd
  rw [List.head?_cons, Option.mem_some_iff] at hd
  exact hd ▸ h

/-- Where no run of a class goes on, none of a class within it does. -/
theorem EndsRun.mono {q : Char → Bool} {rest : List Char} (h : EndsRun p rest)
    (hqp : ∀ c, q c = true → p c = true) : EndsRun q rest := by
  intro c hc
  cases hq : q c with
  | false => rfl
  | true => exact absurd (hqp c hq) (by simp [h c hc])

theorem endsRun_dropWhile (p : Char → Bool) (cs : List Char) : EndsRun p (cs.dropWhile p) := by
  intro c hc
  have h := List.head?_dropWhile_not p cs
  rw [Option.mem_def.mp hc] at h
  simpa using h

theorem takeWhile_of_endsRun {rest : List Char} (h : EndsRun p rest) : rest.takeWhile p = [] := by
  cases rest with
  | nil => rfl
  | cons c rest => rw [List.takeWhile_cons_of_neg (by simp [h c rfl])]

theorem dropWhile_of_endsRun {rest : List Char} (h : EndsRun p rest) :
    rest.dropWhile p = rest := by
  cases rest with
  | nil => rfl
  | cons c rest => rw [List.dropWhile_cons_of_neg (by simp [h c rfl])]

/-- A run taken as far as it goes. -/
theorem takeWhile_run {run rest : List Char} (hr : ∀ c ∈ run, p c = true) (he : EndsRun p rest) :
    (run ++ rest).takeWhile p = run := by
  rw [List.takeWhile_append_of_pos hr, takeWhile_of_endsRun he, List.append_nil]

/-- What is left after a run. -/
theorem dropWhile_run {run rest : List Char} (hr : ∀ c ∈ run, p c = true) (he : EndsRun p rest) :
    (run ++ rest).dropWhile p = rest := by
  rw [List.dropWhile_append_of_pos hr, dropWhile_of_endsRun he]

end PanelLint.Text

import Mathlib.Data.List.Basic

/-!
# Lines of a text

A text that is read in universal newline mode has its line ends, which may be `\r`, `\n` or `\r\n`,
translated into `\n`.  It is the text as it stands if and only if that has no `\r`
(`universalNewlines_eq_self`).  `keepLines` are its lines with their ends, which together are the text
again.
-/

namespace Library

/-- The translation, behind a carriage return or not. -/
def newlinesFrom : Bool → List Char → List Char
  | _, [] => []
  | afterCr, c :: rest =>
      if c = '\r' then '\n' :: newlinesFrom true rest
      else if afterCr = true ∧ c = '\n' then newlinesFrom false rest
      else c :: newlinesFrom false rest

def universalNewlines (text : List Char) : List Char := newlinesFrom false text

def keepLines : List Char → List (List Char)
  | [] => []
  | c :: rest =>
      if c = '\n' then ['\n'] :: keepLines rest
      else
        match keepLines rest with
        | [] => [[c]]
        | line :: lines => (c :: line) :: lines

theorem not_mem_newlinesFrom (afterCr : Bool) (text : List Char) :
    '\r' ∉ newlinesFrom afterCr text := by
  induction text generalizing afterCr with
  | nil => exact List.not_mem_nil
  | cons c rest ih =>
      rw [newlinesFrom]
      split
      · exact List.not_mem_cons_of_ne_of_not_mem (by decide) (ih true)
      split
      · exact ih false
      · rename_i other _
        exact List.not_mem_cons_of_ne_of_not_mem (fun same => other same.symm) (ih false)

theorem universalNewlines_of_not_mem {text : List Char} (none : '\r' ∉ text) :
    universalNewlines text = text := by
  unfold universalNewlines
  induction text with
  | nil => rfl
  | cons c rest ih =>
      have other : c ≠ '\r' := fun same => none (same ▸ List.mem_cons_self ..)
      rw [newlinesFrom, if_neg other, if_neg fun h => Bool.false_ne_true h.1,
        ih fun h => none (List.mem_cons_of_mem _ h)]

/-- Only a text with no carriage return is read as it stands. -/
theorem universalNewlines_eq_self {text : List Char} :
    universalNewlines text = text ↔ '\r' ∉ text := by
  refine ⟨fun same => ?_, universalNewlines_of_not_mem⟩
  rw [← same]
  exact not_mem_newlinesFrom false text

theorem flatten_keepLines (text : List Char) : (keepLines text).flatten = text := by
  induction text with
  | nil => rfl
  | cons c rest ih =>
      rw [keepLines]
      split
      · rename_i newline
        rw [List.flatten_cons, ih, newline]
        rfl
      · cases lines : keepLines rest with
        | nil =>
            rw [lines] at ih
            rw [← ih]
            rfl
        | cons line lines' =>
            rw [lines] at ih
            rw [← ih]
            rfl

end Library

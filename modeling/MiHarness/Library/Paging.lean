import Mathlib.Data.List.Basic

/-!
# Reading page by page

A reader starts at a position and goes on from where a page says that the next one starts, until a page
is not truncated.  `Reads` are the pages that such a reader gets, each truncated one moving on.
-/

namespace Library

variable {ε α : Type}

structure Page (α : Type) where
  content : List α
  next : Nat
  truncated : Bool

/-- The pages from a position to where the last one ends. -/
inductive Reads (page : Nat → Except ε (Page α)) (stop : Nat) : Nat → List (Page α) → Prop where
  | last {p : Nat} {r : Page α} : page p = .ok r → r.truncated = false → r.next = stop →
      Reads page stop p [r]
  | more {p : Nat} {r : Page α} {rs : List (Page α)} : page p = .ok r → r.truncated = true →
      p < r.next → Reads page stop r.next rs → Reads page stop p (r :: rs)

/-- The contents of the pages, one after another. -/
def contents (pages : List (Page α)) : List α := (pages.map Page.content).flatten

/-- The pages are read to the end and their contents are the text. -/
def Reassembles (page : Nat → Except ε (Page α)) (start stop : Nat) (text : List α) : Prop :=
  ∃ pages, Reads page stop start pages ∧ contents pages = text

/-- Where every page is there and a truncated one moves on, all are read. -/
theorem Reads.total {page : Nat → Except ε (Page α)} {stop : Nat} (inside : Nat → Prop)
    (step : ∀ p, inside p → ∃ r, page p = .ok r ∧ (r.truncated = false → r.next = stop) ∧
      (r.truncated = true → p < r.next ∧ r.next ≤ stop ∧ inside r.next)) {p : Nat} (start : inside p) :
    ∃ pages, Reads page stop p pages := by
  induction left : stop - p using Nat.strongRecOn generalizing p with
  | ind n ih =>
      obtain ⟨r, found, done, more⟩ := step p start
      cases truncated : r.truncated with
      | false => exact ⟨[r], .last found truncated (done truncated)⟩
      | true =>
          obtain ⟨later, bound, here⟩ := more truncated
          obtain ⟨rs, rest⟩ := ih (stop - r.next) (by omega) here rfl
          exact ⟨r :: rs, .more found truncated later rest⟩

end Library

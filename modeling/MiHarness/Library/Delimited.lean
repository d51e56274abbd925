import Mathlib.Data.List.Basic

/-!
# Texts cut at delimiters

A delimiter is given by what follows it at the front of a text.  `search` finds the first one in a
text and `Delimiter.cut` cuts a text at every one of them, into the pieces that are complete and the
tail after the last.

A `Delimiter` does not look further than it is long: more text leaves one that is there where it is,
and where more text would complete one, no other starts behind it.  So a text that arrives in chunks
is cut as the whole text is (`cut_append`).  `cut_prefix` says where a prefix of delimited texts that
follow one another is cut.
-/

namespace Library

variable {α : Type}

/-- The text before the first delimiter and the text behind it. -/
def search (eat : List α → Option (List α)) : List α → Option (List α × List α)
  | [] => none
  | c :: s =>
      (eat (c :: s)).elim ((search eat s).map fun p => (c :: p.1, p.2)) fun rest => some ([], rest)

structure Delimiter (α : Type) where
  /-- What follows a delimiter at the front of a text. -/
  eat : List α → Option (List α)
  shrinks : ∀ {s rest}, eat s = some rest → rest.length < s.length
  stays : ∀ {s rest} (t), eat s = some rest → eat (s ++ t) = some (rest ++ t)
  early : ∀ {c s} (t), eat (c :: s) = none → eat (c :: s ++ t) ≠ none → search eat s = none

theorem search_hit {eat : List α → Option (List α)} {c : α} {s rest : List α}
    (hit : eat (c :: s) = some rest) : search eat (c :: s) = some ([], rest) := by
  rw [search, hit]
  rfl

theorem search_miss {eat : List α → Option (List α)} {c : α} {s : List α}
    (miss : eat (c :: s) = none) :
    search eat (c :: s) = (search eat s).map fun p => (c :: p.1, p.2) := by
  rw [search, miss]
  rfl

namespace Delimiter

variable (d : Delimiter α) {s t piece rest : List α}

theorem search_length (found : search d.eat s = some (piece, rest)) : rest.length < s.length := by
  induction s generalizing piece with
  | nil => cases found
  | cons c s ih =>
      cases eaten : d.eat (c :: s) with
      | some r =>
          rw [search_hit eaten] at found
          cases found
          exact d.shrinks eaten
      | none =>
          rw [search_miss eaten] at found
          obtain ⟨⟨piece', rest'⟩, found', same⟩ := Option.map_eq_some_iff.mp found
          cases same
          exact Nat.lt_succ_of_lt (ih found')

/-- More text leaves the first delimiter where it is. -/
theorem search_append (t : List α) (found : search d.eat s = some (piece, rest)) :
    search d.eat (s ++ t) = some (piece, rest ++ t) := by
  induction s generalizing piece with
  | nil => cases found
  | cons c s ih =>
      cases eaten : d.eat (c :: s) with
      | some r =>
          rw [search_hit eaten] at found
          cases found
          exact search_hit (d.stays t eaten)
      | none =>
          rw [search_miss eaten] at found
          obtain ⟨⟨piece', rest'⟩, found', same⟩ := Option.map_eq_some_iff.mp found
          cases same
          have miss : d.eat (c :: (s ++ t)) = none := by
            by_contra hit
            cases (d.early t eaten hit).symm.trans found'
          rw [List.cons_append, search_miss miss, ih found']
          rfl

/-- The complete pieces and the tail. -/
def cut (s : List α) : List (List α) × List α :=
  match _h : search d.eat s with
  | none => ([], s)
  | some (piece, rest) => (piece :: (cut rest).1, (cut rest).2)
termination_by s.length
decreasing_by all_goals exact d.search_length _h

theorem cut_of_none (absent : search d.eat s = none) : d.cut s = ([], s) := by
  rw [cut]
  split
  · rfl
  · rename_i found
    cases absent.symm.trans found

theorem cut_of_some (found : search d.eat s = some (piece, rest)) :
    d.cut s = (piece :: (d.cut rest).1, (d.cut rest).2) := by
  rw [cut]
  split
  · rename_i absent
    cases absent.symm.trans found
  · rename_i found'
    cases found.symm.trans found'
    rfl

/-- The tail has no delimiter. -/
theorem cut_tail (s : List α) : d.cut (d.cut s).2 = ([], (d.cut s).2) := by
  induction s using cut.induct d with
  | case1 s absent =>
      have short := d.cut_of_none absent
      rw [short]
      exact short
  | case2 s piece rest found ih =>
      rw [d.cut_of_some found]
      exact ih

/-- A text that arrives later is cut behind the tail of what was there. -/
theorem cut_append (s t : List α) : d.cut (s ++ t) =
    ((d.cut s).1 ++ (d.cut ((d.cut s).2 ++ t)).1, (d.cut ((d.cut s).2 ++ t)).2) := by
  induction s using cut.induct d with
  | case1 s absent => rw [d.cut_of_none absent, List.nil_append]
  | case2 s piece rest found ih =>
      rw [d.cut_of_some (d.search_append t found), d.cut_of_some found, ih]
      rfl

/-- The text is the piece and its delimiter. -/
def Ends (piece text : List α) : Prop := ∀ t, search d.eat (text ++ t) = some (piece, t)

variable {d}

theorem Ends.cut (ends : d.Ends piece s) (t : List α) :
    d.cut (s ++ t) = (piece :: (d.cut t).1, (d.cut t).2) := d.cut_of_some (ends t)

/-- What is short of a delimited text has no delimiter. -/
theorem Ends.short (ends : d.Ends piece s) (before : t <+: s) (apart : t ≠ s) :
    search d.eat t = none := by
  obtain ⟨more, rfl⟩ := before
  cases found : search d.eat t with
  | none => rfl
  | some p =>
      have all := ends []
      rw [List.append_nil, d.search_append more found] at all
      have none : p.2 ++ more = [] := congrArg Prod.snd (Option.some.inj all)
      exact absurd (by rw [(List.append_eq_nil_iff.mp none).2, List.append_nil]) apart

end Delimiter

/-- Of texts that follow one another, what is received behind the last one that is complete. -/
def Unterminated (texts : List (List α)) (received tail : List α) : Prop :=
  ∃ done rest, texts = done ++ rest ∧ received = done.flatten ++ tail ∧
    ∀ next ∈ rest.head?, ¬next <+: tail

/-- A prefix of delimited texts is cut into the pieces of the complete ones. -/
theorem Delimiter.cut_prefix {ι : Type} {d : Delimiter α} {text piece : ι → List α}
    (ends : ∀ i, d.Ends (piece i) (text i)) : ∀ {items : List ι} {received : List α},
      received <+: (items.map text).flatten → ∃ done rest tail, items = done ++ rest ∧
        received = (done.map text).flatten ++ tail ∧
        (∀ next ∈ (rest.map text).head?, ¬next <+: tail) ∧ d.cut received = (done.map piece, tail)
  | [], received, inside => by
      cases List.prefix_nil.mp inside
      exact ⟨[], [], [], rfl, rfl, fun _ h => (by cases h), d.cut_of_none rfl⟩
  | i :: items, received, inside => by
      by_cases whole : text i <+: received
      · obtain ⟨later, rfl⟩ := whole
        rw [List.map_cons, List.flatten_cons, List.prefix_append_right_inj] at inside
        obtain ⟨done, rest, tail, rfl, rfl, short, cuts⟩ := cut_prefix ends inside
        refine ⟨i :: done, rest, tail, rfl, (List.append_assoc ..).symm, short, ?_⟩
        rw [(ends i).cut, cuts]
        rfl
      · refine ⟨[], i :: items, received, rfl, rfl, fun next hnext => ?_, d.cut_of_none ?_⟩
        · cases hnext
          exact whole
        · have before : received <+: text i := by
            rcases List.prefix_or_prefix_of_prefix inside (List.prefix_append (text i) _) with h | h
            · exact h
            · exact absurd h whole
          exact (ends i).short before fun same => whole (same ▸ List.prefix_rfl)

/-- Delimited texts are cut into their pieces. -/
theorem Delimiter.cut_texts {ι : Type} {d : Delimiter α} {text piece : ι → List α}
    (ends : ∀ i, d.Ends (piece i) (text i)) (items : List ι) :
    d.cut (items.map text).flatten = (items.map piece, []) := by
  induction items with
  | nil => exact d.cut_of_none rfl
  | cons i items ih =>
      rw [List.map_cons, List.flatten_cons, (ends i).cut, ih]
      rfl

end Library

import Mathlib.Data.List.Infix
import MiHarness.Library.Utf8

/-!
# Occurrences of a needle

`countFrom` counts occurrences from the left that do not overlap, and `replaceFirst` puts another list
in the place of the first.  One occurrence that is counted is the only one if and only if no two overlap
(`replaced_iff`).  A text occurs in another as its bytes do in the bytes of the other
(`replaced_encode`).
-/

namespace Library

variable {α : Type} [DecidableEq α]

/-- The occurrences of a nonempty needle behind the next `k` elements, none of which overlaps the one
before it. -/
def countFrom (needle : List α) : Nat → List α → Nat
  | _, [] => 0
  | 0, c :: rest =>
      if needle <+: c :: rest then countFrom needle (needle.length - 1) rest + 1
      else countFrom needle 0 rest
  | k + 1, _ :: rest => countFrom needle k rest

def replaceFirst (needle new : List α) : List α → List α
  | [] => []
  | c :: rest =>
      if needle <+: c :: rest then new ++ (c :: rest).drop needle.length
      else c :: replaceFirst needle new rest

omit [DecidableEq α] in
/-- `after` is `before` with the one occurrence of the needle replaced. -/
def Replaced (needle new before after : List α) : Prop :=
  ∃ a b, before = a ++ needle ++ b ∧ after = a ++ new ++ b ∧
    ∀ a' b', before = a' ++ needle ++ b' → a' = a

omit [DecidableEq α] in
/-- Two occurrences of the needle overlap. -/
def Overlaps (needle text : List α) : Prop :=
  ∃ a b a' b', text = a ++ needle ++ b ∧ text = a' ++ needle ++ b' ∧ a.length < a'.length ∧
    a'.length < a.length + needle.length

variable {needle new text : List α}

theorem countFrom_skip (needle : List α) (k : Nat) (text : List α) :
    countFrom needle k text = countFrom needle 0 (text.drop k) := by
  induction text generalizing k with
  | nil =>
      rw [List.drop_nil]
      cases k with
      | zero => rfl
      | succ k => rfl
  | cons c rest ih =>
      cases k with
      | zero => rfl
      | succ k =>
          rw [List.drop_succ_cons, countFrom]
          exact ih k

/-- An occurrence at the start is counted, and counting goes on behind it. -/
theorem countFrom_append (some : needle ≠ []) (rest : List α) :
    countFrom needle 0 (needle ++ rest) = countFrom needle 0 rest + 1 := by
  cases needle with
  | nil => exact absurd rfl some
  | cons c tail =>
      rw [List.cons_append, countFrom, if_pos ⟨rest, rfl⟩, countFrom_skip]
      simp

/-- Where the needle occurs it is counted. -/
theorem countFrom_ne_zero (some : needle ≠ []) (a b : List α) :
    countFrom needle 0 (a ++ needle ++ b) ≠ 0 := by
  induction a with
  | nil =>
      rw [List.nil_append, countFrom_append some]
      exact Nat.succ_ne_zero _
  | cons c a ih =>
      rw [List.cons_append, List.cons_append, countFrom]
      split
      · exact Nat.succ_ne_zero _
      · exact ih

/-- The first occurrence: the count goes on behind it, and it is what is replaced. -/
theorem first_occurrence (some : needle ≠ []) (new : List α) (counted : countFrom needle 0 text ≠ 0) :
    ∃ a b, text = a ++ needle ++ b ∧ replaceFirst needle new text = a ++ new ++ b ∧
      countFrom needle 0 text = countFrom needle 0 b + 1 ∧
      ∀ a' b', text = a' ++ needle ++ b' → a.length ≤ a'.length := by
  induction text with
  | nil => exact absurd rfl counted
  | cons c rest ih =>
      by_cases here : needle <+: c :: rest
      · obtain ⟨b, split⟩ := here
        refine ⟨[], b, split.symm, ?_, ?_, fun _ _ _ => Nat.zero_le _⟩
        · rw [replaceFirst, if_pos ⟨b, split⟩, ← split, List.drop_left]
          rfl
        · rw [← split, countFrom_append some]
      · rw [countFrom, if_neg here] at counted
        obtain ⟨a, b, split, replaced, count, first⟩ := ih counted
        refine ⟨c :: a, b, by rw [split]; rfl, ?_, ?_, fun a' b' occurs => ?_⟩
        · rw [replaceFirst, if_neg here, replaced]
          rfl
        · rw [countFrom, if_neg here, count]
        · cases a' with
          | nil => exact absurd ⟨b', occurs.symm⟩ here
          | cons c' a' =>
              rw [List.cons_append, List.cons_append, List.cons.injEq] at occurs
              exact Nat.succ_le_succ (first a' b' occurs.2)

omit [DecidableEq α] in
/-- An occurrence that starts behind another is in what follows that one. -/
theorem occurrence_behind {a b a' b' : List α} (same : a ++ needle ++ b = a' ++ needle ++ b')
    (behind : a.length + needle.length ≤ a'.length) : ∃ m, b = m ++ needle ++ b' := by
  rw [List.append_assoc a'] at same
  obtain ⟨m, -, rest⟩ | ⟨m, split, rest⟩ := List.append_eq_append_iff.mp same
  · exact ⟨m, by rw [rest, List.append_assoc]⟩
  · have lengths := congrArg List.length split
    rw [List.length_append, List.length_append] at lengths
    have none : m = [] := List.length_eq_zero_iff.mp (by omega)
    rw [none] at rest
    exact ⟨[], rest.symm⟩

/-- What is counted once and replaced is the one occurrence if and only if no two overlap. -/
theorem replaced_iff (some : needle ≠ []) (once : countFrom needle 0 text = 1) :
    Replaced needle new text (replaceFirst needle new text) ↔ ¬Overlaps needle text := by
  obtain ⟨a, b, split, replaced, count, first⟩ := first_occurrence some new (once ▸ Nat.one_ne_zero)
  constructor
  · rintro ⟨p, q, -, -, unique⟩ ⟨x, y, x', y', one, two, less, -⟩
    rw [unique x y one, unique x' y' two] at less
    exact Nat.lt_irrefl _ less
  · intro apart
    refine ⟨a, b, split, replaced, fun a' b' occurs => ?_⟩
    have after := first a' b' occurs
    by_cases same : a.length = a'.length
    · have cut := split.symm.trans occurs
      rw [List.append_assoc, List.append_assoc] at cut
      exact (List.append_inj_left cut same).symm
    · by_cases inside : a'.length < a.length + needle.length
      · exact absurd ⟨a, b, a', b', split, occurs, by omega, inside⟩ apart
      · obtain ⟨m, rest⟩ := occurrence_behind (split.symm.trans occurs) (by omega)
        have more := countFrom_ne_zero some m b'
        rw [← rest] at more
        omega

/-- What replaces the needle in a list without `c` is not what replaces it in a list with `c`. -/
theorem not_replaced_of_mem {c : α} {other : List α} (mem : c ∈ text) (none : c ∉ other)
    (counted : countFrom needle 0 other ≠ 0) (some : needle ≠ []) :
    ¬Replaced needle new text (replaceFirst needle new other) := by
  rintro ⟨a, b, split, replaced, -⟩
  obtain ⟨a', b', split', replaced', -, -⟩ := first_occurrence some new counted
  have counts := congrArg (List.count c) (replaced.symm.trans replaced')
  simp only [List.count_append] at counts
  rw [split'] at none
  simp only [List.mem_append, not_or] at none
  obtain ⟨⟨none₁, none₂⟩, none₃⟩ := none
  rw [List.count_eq_zero.mpr none₁, List.count_eq_zero.mpr none₃] at counts
  rw [split] at mem
  simp only [List.mem_append] at mem
  rcases mem with (mem | mem) | mem
  · have := List.count_pos_iff.mpr mem
    omega
  · exact none₂ mem
  · have := List.count_pos_iff.mpr mem
    omega

/-! ## In the bytes of a text -/

namespace Utf8

theorem encode_inj {a b : List Char} (same : encode a = encode b) : a = b := by
  have decoded := congrArg decodeReplace same
  rwa [decodeReplace_encode, decodeReplace_encode] at decoded

variable {needle new before after text : List Char}

/-- Where the bytes of a text occur, the text does. -/
theorem occurrence_encode {p q : Bytes} (some : needle ≠ [])
    (cut : encode text = p ++ encode needle ++ q) :
    ∃ a b, text = a ++ needle ++ b ∧ p = encode a ∧ q = encode b := by
  rw [List.append_assoc] at cut
  have between : Between (encode needle ++ q) := by
    cases needle with
    | nil => exact absurd rfl some
    | cons c needle =>
        obtain ⟨b, tail, bytes, first, -⟩ := scan_encodeChar c
        rw [encode_cons, bytes]
        intro b' h
        cases h
        exact first
  obtain ⟨a, rest, rfl, hp, hrest⟩ := split_of_between cut between
  have decoded := decodeReplace_encode_append needle q
  rw [hrest, decodeReplace_encode] at decoded
  rw [decoded, encode_append, List.append_cancel_left_eq] at hrest
  exact ⟨a, decodeReplace q, by rw [decoded, List.append_assoc], hp, hrest⟩

theorem replaced_encode (some : needle ≠ []) :
    Replaced (encode needle) (encode new) (encode before) (encode after) ↔
      Replaced needle new before after := by
  constructor
  · rintro ⟨p, q, cut, replaced, unique⟩
    obtain ⟨a, b, split, rfl, rfl⟩ := occurrence_encode some cut
    refine ⟨a, b, split, ?_, fun a' b' occurs => ?_⟩
    · rw [← encode_append, ← encode_append] at replaced
      exact encode_inj replaced
    · refine encode_inj (unique (encode a') (encode b') ?_)
      rw [occurs, encode_append, encode_append]
  · rintro ⟨a, b, split, replaced, unique⟩
    refine ⟨encode a, encode b, ?_, ?_, fun p' q' cut => ?_⟩
    · rw [split, encode_append, encode_append]
    · rw [replaced, encode_append, encode_append]
    · obtain ⟨a', b', occurs, rfl, -⟩ := occurrence_encode some cut
      rw [unique a' b' occurs]

end Utf8

end Library

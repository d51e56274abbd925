import Mathlib.Data.List.Nodup
import Mathlib.Data.List.Perm.Subperm

/-!
# Worklists

`worklist next` visits a queue: it takes the first item, appends what `next` gives for it
and goes on, which is a breadth-first traversal.  The traversal is by fuel.

`worklist_closed` says that fuel for every item suffices, when no item has two predecessors
and `next` climbs in some rank: the visited items are then closed under `next`.
-/

namespace Library

variable {α : Type}

/-- The items visited from a queue, in order. -/
def worklist (next : α → List α) : Nat → List α → List α
  | 0, _ => []
  | _, [] => []
  | fuel + 1, a :: queue => a :: worklist next fuel (queue ++ next a)

/-- Reachability along `next`. -/
inductive Descends (next : α → List α) (root : α) : α → Prop where
  | root : Descends next root root
  | next {a b : α} : Descends next root a → b ∈ next a → Descends next root b

/-- A successor relation in which no item has two predecessors and every successor ranks
higher. -/
structure Forest (next : α → List α) (rank : α → Nat) : Prop where
  nodup : ∀ a, (next a).Nodup
  single : ∀ {a b c}, c ∈ next a → c ∈ next b → a = b
  climbs : ∀ {a b}, b ∈ next a → rank a < rank b

/-- The items visited and queued so far: distinct, and each the root or a successor of a
visited item. -/
structure Visited (next : α → List α) (rank : α → Nat) (root : α) (done queue : List α) :
    Prop where
  nodup : (done ++ queue).Nodup
  origin : ∀ a ∈ done ++ queue, a = root ∨ ∃ d ∈ done, a ∈ next d
  rooted : ∀ a ∈ done ++ queue, rank root ≤ rank a
  closed : ∀ d ∈ done, ∀ a ∈ next d, a ∈ done ++ queue

variable {next : α → List α} {rank : α → Nat} {root : α}

theorem Visited.start : Visited next rank root [] [root] where
  nodup := by simp
  origin a h := .inl (by simpa using h)
  rooted a h := by
    obtain rfl : a = root := by simpa using h
    exact Nat.le_refl _
  closed _ h := by simp at h

theorem Visited.visit {done queue : List α} {a : α} (forest : Forest next rank)
    (v : Visited next rank root done (a :: queue)) :
    Visited next rank root (done ++ [a]) (queue ++ next a) := by
  have split : ∀ {b}, b ∈ (done ++ [a]) ++ (queue ++ next a) ↔
      b ∈ done ++ a :: queue ∨ b ∈ next a := by
    intro b
    simp only [List.mem_append, List.mem_cons, List.not_mem_nil, or_false]
    tauto
  have member : a ∈ done ++ a :: queue := List.mem_append_right _ (List.mem_cons_self ..)
  have fresh : a ∉ done := by
    intro h
    exact (List.nodup_append.mp v.nodup).2.2 a h a (List.mem_cons_self ..) rfl
  refine ⟨?_, ?_, ?_, ?_⟩
  · have shape : (done ++ [a]) ++ (queue ++ next a) = (done ++ a :: queue) ++ next a := by simp
    rw [shape, List.nodup_append]
    refine ⟨v.nodup, forest.nodup a, fun b hb c hc hbc => ?_⟩
    subst hbc
    rcases v.origin b hb with rfl | ⟨d, hd, hbd⟩
    · exact absurd (forest.climbs hc) (Nat.not_lt.mpr (v.rooted a member))
    · exact fresh (forest.single hbd hc ▸ hd)
  · intro b hb
    rcases split.mp hb with hb | hb
    · rcases v.origin b hb with h | ⟨d, hd, hbd⟩
      · exact .inl h
      · exact .inr ⟨d, List.mem_append_left _ hd, hbd⟩
    · exact .inr ⟨a, by simp, hb⟩
  · intro b hb
    rcases split.mp hb with hb | hb
    · exact v.rooted b hb
    · exact Nat.le_trans (v.rooted a member) (Nat.le_of_lt (forest.climbs hb))
  · intro d hd b hb
    rw [split]
    rcases List.mem_append.mp hd with hd | hd
    · exact .inl (v.closed d hd b hb)
    · obtain rfl : d = a := by simpa using hd
      exact .inr hb

/-- The items met are no more than the root and the items that have a predecessor. -/
theorem Visited.length_le {done queue items : List α} (v : Visited next rank root done queue)
    (bound : ∀ {a b}, b ∈ next a → b ∈ items) : (done ++ queue).length ≤ items.length + 1 := by
  have sub : done ++ queue ⊆ root :: items := fun a ha =>
    (v.origin a ha).elim (fun h => h ▸ List.mem_cons_self ..)
      fun ⟨_, _, h⟩ => List.mem_cons_of_mem _ (bound h)
  exact (List.subperm_of_subset v.nodup sub).length_le

theorem Visited.worklist {items : List α} (forest : Forest next rank)
    (bound : ∀ {a b}, b ∈ next a → b ∈ items) :
    ∀ {fuel : Nat} {done queue : List α}, items.length + 1 ≤ done.length + fuel →
      Visited next rank root done queue →
      Visited next rank root (done ++ worklist next fuel queue) []
  | 0, done, queue, enough, v => by
      have := v.length_le bound
      have : queue = [] := by
        rw [List.length_append] at this
        exact List.length_eq_zero_iff.mp (by omega)
      subst this
      simpa [Library.worklist] using v
  | _ + 1, done, [], _, v => by simpa [Library.worklist] using v
  | fuel + 1, done, a :: queue, enough, v => by
      have visited : Visited next rank root
          ((done ++ [a]) ++ Library.worklist next fuel (queue ++ next a)) [] :=
        Visited.worklist forest bound (by simp; omega) (v.visit forest)
      simpa [Library.worklist] using visited

/-- Fuel for every item suffices: the visited items are closed under `next`. -/
theorem worklist_closed {items : List α} {fuel : Nat} (forest : Forest next rank)
    (bound : ∀ {a b}, b ∈ next a → b ∈ items) (enough : items.length + 1 ≤ fuel) :
    ∀ a ∈ worklist next fuel [root], ∀ b ∈ next a, b ∈ worklist next fuel [root] := by
  have v : Visited next rank root ([] ++ worklist next fuel [root]) [] :=
    Visited.worklist forest bound (by simpa using enough) .start
  intro a ha b hb
  simpa using v.closed a (by simpa using ha) b hb

/-- No item is visited twice. -/
theorem worklist_nodup {items : List α} {fuel : Nat} (forest : Forest next rank)
    (bound : ∀ {a b}, b ∈ next a → b ∈ items) (enough : items.length + 1 ≤ fuel) :
    (worklist next fuel [root]).Nodup := by
  have v : Visited next rank root ([] ++ worklist next fuel [root]) [] :=
    Visited.worklist forest bound (by simpa using enough) .start
  simpa using v.nodup

theorem mem_worklist_root (fuel : Nat) (root : α) : root ∈ worklist next (fuel + 1) [root] :=
  List.mem_cons_self ..

end Library

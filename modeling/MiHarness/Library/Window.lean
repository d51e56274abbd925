import Mathlib.Data.List.TakeWhile
import Mathlib.Order.Defs.PartialOrder

/-!
# Sliding windows

A limiter remembers when it has let something in.  It forgets at the front what is old, and lets in while
it remembers fewer than a bound.  `Window.Sound` ties what it remembers to everything it has let in, and is
kept while the clock does not go back (`Sound.attempt`).  Under it no burst, whose members are not old to each
other, is longer than the bound (`Sound.burst`), and less than a full burst is always followed by one more
(`Sound.admits`).
-/

namespace Library

variable {T : Type} [Preorder T]

/-- A bound, and when a time is old now. -/
structure Window (T : Type) [Preorder T] where
  most : Nat
  old : (now t : T) → Bool
  /-- What is old stays so, and what is before it is old. -/
  mono : ∀ {now now' t t'}, old now t = true → now ≤ now' → t' ≤ t → old now' t' = true

namespace Window

variable (window : Window T)

/-- What is remembered at an attempt, oldest first. -/
def fresh (recent : List T) (now : T) : List T :=
  recent.dropWhile (window.old now)

/-- What is remembered after an attempt, and whether it is let in. -/
def attempt (recent : List T) (now : T) : List T × Bool :=
  let kept := window.fresh recent now
  if kept.length < window.most then (kept ++ [now], true) else (kept, false)

/-- No time of the list is old to one that is before it in the list. -/
def Burst (times : List T) : Prop :=
  times.Pairwise fun later earlier => window.old later earlier = false

/-- Each time but the last few before it is old to it; the latest is first. -/
def Spaced : List T → Prop
  | [] => True
  | now :: log => (∀ t ∈ log.drop (window.most - 1), window.old now t = true) ∧ Spaced log

/-- What is remembered is what was let in, the latest first, less what is old now. -/
structure Sound (log recent : List T) (now : T) : Prop where
  past : ∀ t ∈ log, t ≤ now
  sorted : log.Pairwise (· ≥ ·)
  kept : ∃ gone, log = recent.reverse ++ gone ∧ ∀ t ∈ gone, window.old now t = true
  spaced : window.Spaced log

variable {window} {log recent : List T} {now now' : T}

theorem Sound.nil (now : T) : window.Sound [] [] now where
  past := by simp
  sorted := List.Pairwise.nil
  kept := ⟨[], rfl, by simp⟩
  spaced := trivial

theorem Sound.tick (sound : window.Sound log recent now) (later : now ≤ now') :
    window.Sound log recent now' where
  past t ht := le_trans (sound.past t ht) later
  sorted := sound.sorted
  kept := by
    obtain ⟨gone, split, old⟩ := sound.kept
    exact ⟨gone, split, fun t ht => window.mono (old t ht) later le_rfl⟩
  spaced := sound.spaced

theorem Sound.forget (sound : window.Sound log recent now) :
    window.Sound log (window.fresh recent now) now where
  past := sound.past
  sorted := sound.sorted
  kept := by
    obtain ⟨gone, split, old⟩ := sound.kept
    refine ⟨(recent.takeWhile (window.old now)).reverse ++ gone, ?_, fun t ht => ?_⟩
    · rw [split, fresh, ← List.append_assoc, ← List.reverse_append, List.takeWhile_append_dropWhile]
    · rcases List.mem_append.mp ht with dropped | before
      · exact List.mem_takeWhile_imp (List.mem_reverse.mp dropped)
      · exact old t before
  spaced := sound.spaced

/-- An attempt that is let in is remembered. -/
theorem Sound.push (sound : window.Sound log recent now) (room : recent.length < window.most) :
    window.Sound (now :: log) (recent ++ [now]) now := by
  obtain ⟨gone, split, old⟩ := sound.kept
  refine { past := ?_, sorted := ?_, kept := ⟨gone, ?_, old⟩, spaced := ⟨fun t ht => old t ?_, sound.spaced⟩ }
  · intro t ht
    rcases List.mem_cons.mp ht with rfl | ht
    · exact le_rfl
    · exact sound.past t ht
  · exact List.pairwise_cons.mpr ⟨sound.past, sound.sorted⟩
  · rw [split, List.reverse_append]
    rfl
  · -- The remembered times are fewer than those that are dropped.
    have few : recent.reverse.length ≤ window.most - 1 := by
      rw [List.length_reverse]
      omega
    rw [split, List.drop_append, List.drop_eq_nil_of_le few] at ht
    exact List.mem_of_mem_drop ht

theorem Sound.attempt (sound : window.Sound log recent now) :
    window.Sound (if (window.attempt recent now).2 then now :: log else log)
      (window.attempt recent now).1 now := by
  unfold Window.attempt
  dsimp only
  split
  · exact sound.forget.push ‹_›
  · exact sound.forget

/-- What is let in in a burst is no more than the bound. -/
theorem Spaced.burst (some' : 0 < window.most) : ∀ {log burst : List T}, window.Spaced log →
    burst.Sublist log → window.Burst burst → burst.length ≤ window.most
  | [], burst, _, part, _ => by simp [List.sublist_nil.mp part]
  | now :: log, burst, spaced, part, close => by
      cases part with
      | cons _ part => exact Spaced.burst some' spaced.2 part close
      | @cons_cons burst' _ _ part =>
          have near := (List.pairwise_cons.mp close).1
          -- The rest of the burst is among the few latest times.
          have rest : burst'.Sublist (log.take (window.most - 1)) := by
            have whole := part.filter fun t => !window.old now t
            have all : burst'.filter (fun t => !window.old now t) = burst' :=
              List.filter_eq_self.mpr fun t ht => by simp [near t ht]
            have none' : (log.drop (window.most - 1)).filter (fun t => !window.old now t) = [] :=
              List.filter_eq_nil_iff.mpr fun t ht => by simp [spaced.1 t ht]
            rw [all, ← List.take_append_drop (window.most - 1) log, List.filter_append, none',
              List.append_nil] at whole
            exact whole.trans List.filter_sublist
          have few := Nat.le_trans rest.length_le (List.length_take_le ..)
          rw [List.length_cons]
          omega

theorem Sound.burst (sound : window.Sound log recent now) (some' : 0 < window.most) {burst : List T}
    (part : burst.Sublist log) (close : window.Burst burst) : burst.length ≤ window.most :=
  sound.spaced.burst some' part close

/-- What is behind the first time that is not old is not old. -/
theorem mem_fresh {t : T} (sorted : recent.Pairwise (· ≤ ·)) (ht : t ∈ window.fresh recent now) :
    window.old now t = false := by
  induction recent with
  | nil => simp [fresh] at ht
  | cons a recent ih =>
      rw [List.pairwise_cons] at sorted
      rw [fresh, List.dropWhile_cons] at ht
      split at ht
      · exact ih sorted.2 ht
      · rcases List.mem_cons.mp ht with rfl | ht
        · exact Bool.eq_false_iff.mpr ‹_›
        · refine Bool.eq_false_iff.mpr fun isOld => ?_
          exact absurd (window.mono isOld le_rfl (sorted.1 t ht)) ‹_›

/-- What is still remembered at an attempt is what was let in and is not old. -/
theorem Sound.fresh_eq (sound : window.Sound log recent now) :
    (window.fresh recent now).reverse = log.filter fun t => !window.old now t := by
  obtain ⟨gone, split, old⟩ := sound.forget.kept
  have none' : gone.filter (fun t => !window.old now t) = [] :=
    List.filter_eq_nil_iff.mpr fun t ht => by simp [old t ht]
  have sorted : recent.Pairwise (· ≤ ·) := by
    obtain ⟨gone, split, -⟩ := sound.kept
    have parts := sound.sorted
    rw [split] at parts
    exact List.pairwise_reverse.mp (List.pairwise_append.mp parts).1
  rw [split, List.filter_append, none', List.append_nil, eq_comm, List.filter_eq_self]
  intro t ht
  have ht := List.mem_reverse.mp ht
  simp [mem_fresh sorted ht]

/-- An attempt is let in when fewer than the bound have been lately. -/
theorem Sound.admits (sound : window.Sound log recent now)
    (few : (log.filter fun t => !window.old now t).length < window.most) :
    (window.attempt recent now).2 = true := by
  have room : (window.fresh recent now).length < window.most := by
    rw [← List.length_reverse, sound.fresh_eq]
    exact few
  rw [Window.attempt, if_pos room]

end Window

end Library

import Mathlib.Data.List.Basic

/-!
# Traces

A trace lists what has happened, the latest event first.  `Once use reset` says of a trace that
an event of the one kind happens again only after one of the other kind.  `Spent` is what a
guard has to exclude: the event has happened and has not been reset since.  `Each` says of every event
what holds of it and of what was before it.
-/

namespace Library

variable {ε : Type} {use reset : ε → Prop}

/-- The event has happened since it was last reset. -/
inductive Spent (use reset : ε → Prop) : List ε → Prop where
  | now {e : ε} {trace : List ε} : use e → Spent use reset (e :: trace)
  | before {e : ε} {trace : List ε} : ¬reset e → Spent use reset trace → Spent use reset (e :: trace)

/-- Between two of the events lies a reset. -/
def Once (use reset : ε → Prop) (trace : List ε) : Prop :=
  ∀ later between earlier e e', trace = later ++ e :: (between ++ e' :: earlier) →
    use e → use e' → ∃ r ∈ between, reset r

theorem Once.nil : Once use reset [] := by
  rintro (_ | _) _ _ _ _ h <;> cases h

/-- What is not spent has been reset since it happened. -/
theorem reset_of_not_spent : ∀ {between earlier : List ε} {e : ε},
    ¬Spent use reset (between ++ e :: earlier) → use e → ∃ r ∈ between, reset r
  | [], _, _, unspent, used => absurd (.now used) unspent
  | b :: between, earlier, e, unspent, used => by
      by_cases h : reset b
      · exact ⟨b, List.mem_cons_self .., h⟩
      · have rest : ¬Spent use reset (between ++ e :: earlier) :=
          fun spent => unspent (.before h spent)
        obtain ⟨r, hr, resets⟩ := reset_of_not_spent rest used
        exact ⟨r, List.mem_cons_of_mem _ hr, resets⟩

/-- A guarded event keeps the law. -/
theorem Once.cons {e : ε} {trace : List ε} (once : Once use reset trace)
    (guarded : use e → ¬Spent use reset trace) : Once use reset (e :: trace) := by
  rintro (_ | ⟨b, later⟩) between earlier e₁ e₂ split used used'
  · obtain ⟨rfl, rfl⟩ := List.cons.inj split
    exact reset_of_not_spent (guarded used) used'
  · exact once later between earlier e₁ e₂ (List.cons.inj split).2 used used'

/-- Other events keep the law. -/
theorem Once.silent {trace : List ε} (once : Once use reset trace) :
    ∀ {events : List ε}, (∀ e ∈ events, ¬use e) → Once use reset (events ++ trace)
  | [], _ => once
  | e :: _, silent =>
      (once.silent fun e' he' => silent e' (List.mem_cons_of_mem _ he')).cons
        fun used => absurd used (silent e (List.mem_cons_self ..))

theorem Once.of_unused {trace : List ε} (unused : ∀ e ∈ trace, ¬use e) : Once use reset trace := by
  simpa using Once.nil.silent unused

theorem not_spent_of_reset {e : ε} {trace : List ε} (resets : reset e) (other : ¬use e) :
    ¬Spent use reset (e :: trace) := by
  rintro (used | ⟨kept, -⟩)
  · exact other used
  · exact kept resets

theorem Spent.of_silent {trace : List ε} :
    ∀ {events : List ε}, (∀ e ∈ events, ¬use e) → Spent use reset (events ++ trace) →
      Spent use reset trace
  | [], _, spent => spent
  | e :: _, silent, spent => by
      cases spent with
      | now used => exact absurd used (silent e (List.mem_cons_self ..))
      | before _ spent =>
          exact Spent.of_silent (fun e' he' => silent e' (List.mem_cons_of_mem _ he')) spent

theorem Spent.used {trace : List ε} (spent : Spent use reset trace) : ∃ e ∈ trace, use e := by
  induction spent with
  | now used => exact ⟨_, List.mem_cons_self .., used⟩
  | before _ _ ih =>
      obtain ⟨e, he, used⟩ := ih
      exact ⟨e, List.mem_cons_of_mem _ he, used⟩

theorem Once.tail {e : ε} {trace : List ε} (once : Once use reset (e :: trace)) :
    Once use reset trace :=
  fun later between earlier e₁ e₂ split => once (e :: later) between earlier e₁ e₂ (by rw [split]; rfl)

/-- Every event of a trace meets a condition on what was before it. -/
def Each (P : List ε → ε → Prop) (trace : List ε) : Prop :=
  ∀ later e earlier, trace = later ++ e :: earlier → P earlier e

theorem Each.nil {P : List ε → ε → Prop} : Each P [] := by
  rintro (_ | _) _ _ h <;> cases h

theorem Each.cons {P : List ε → ε → Prop} {e : ε} {trace : List ε} (each : Each P trace)
    (latest : P trace e) : Each P (e :: trace) := by
  rintro (_ | ⟨b, later⟩) e' earlier split
  · obtain ⟨rfl, rfl⟩ := List.cons.inj split
    exact latest
  · exact each later e' earlier (List.cons.inj split).2

end Library

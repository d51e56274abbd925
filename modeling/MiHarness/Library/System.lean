import Mathlib.Logic.Relation

/-!
# Guarded transition systems

A system has initial states and labelled steps.  `Reachable` is the set of states its runs
reach and `Path` the states a run reaches from a given one.  Two rules package the
inductions over runs:

* `Reachable.invariant`: what holds initially and is kept by every step from a reachable
  state holds of every reachable state;
* `Path.stable`: what every step from a reachable state keeps, a run keeps.

`History` is a run with the steps it has taken, for what is said of the past; `History.invariant` is
the rule for it.

`Reachable.map` turns a run of a finer system into one of the system it refines.  `restrict`
keeps the steps that meet a condition, so that "every run whose steps all meet
the condition" is reachability in the restricted system.
-/

namespace Library

/-- Initial states and labelled steps. -/
structure System (σ α : Type) where
  /-- The states a run starts in. -/
  init : σ → Prop
  /-- The steps, by label. -/
  step : σ → α → σ → Prop

namespace System

variable {σ α : Type}

/-- The states the runs of the system reach. -/
inductive Reachable (S : System σ α) : σ → Prop where
  | init {s : σ} : S.init s → Reachable S s
  | step {s s' : σ} {a : α} : Reachable S s → S.step s a s' → Reachable S s'

/-- The states a run reaches from a state. -/
inductive Path (S : System σ α) : σ → σ → Prop where
  | refl {s : σ} : Path S s s
  | tail {s t u : σ} {a : α} : Path S s t → S.step t a u → Path S s u

/-- The same system with only the steps that meet a condition on the state before and the
label. -/
def restrict (S : System σ α) (C : σ → α → Prop) : System σ α where
  init := S.init
  step s a s' := C s a ∧ S.step s a s'

variable {S : System σ α}

/-- What holds initially and is kept by every step from a reachable state holds throughout. -/
theorem Reachable.invariant {I : σ → Prop} (start : ∀ s, S.init s → I s)
    (kept : ∀ s a s', S.Reachable s → I s → S.step s a s' → I s') {s : σ} (h : S.Reachable s) :
    I s := by
  induction h with
  | init hs => exact start _ hs
  | step hs hstep ih => exact kept _ _ _ hs ih hstep

theorem Reachable.path {s t : σ} (h : S.Reachable s) (p : S.Path s t) : S.Reachable t := by
  induction p with
  | refl => exact h
  | tail _ hstep ih => exact ih.step hstep

/-- What every step from a reachable state keeps, a run from a reachable state keeps. -/
theorem Path.stable {P : σ → Prop} (kept : ∀ s a s', S.Reachable s → P s → S.step s a s' → P s')
    {s t : σ} (h : S.Reachable s) (p : S.Path s t) (hs : P s) : P t := by
  induction p with
  | refl => exact hs
  | tail p hstep ih => exact kept _ _ _ (h.path p) ih hstep

theorem Path.trans {s t u : σ} (p : S.Path s t) (q : S.Path t u) : S.Path s u := by
  induction q with
  | refl => exact p
  | tail _ hstep ih => exact ih.tail hstep

/-- A run to a state with its steps, each with the state before it, the latest first. -/
inductive History (S : System σ α) : List (σ × α) → σ → Prop where
  | init {s : σ} : S.init s → History S [] s
  | step {past : List (σ × α)} {s s' : σ} {a : α} :
      History S past s → S.step s a s' → History S ((s, a) :: past) s'

theorem History.reachable {past : List (σ × α)} {s : σ} (h : S.History past s) : S.Reachable s := by
  induction h with
  | init hs => exact .init hs
  | step _ hstep ih => exact ih.step hstep

theorem Reachable.history {s : σ} (h : S.Reachable s) : ∃ past, S.History past s := by
  induction h with
  | init hs => exact ⟨[], .init hs⟩
  | step _ hstep ih =>
      obtain ⟨past, hs⟩ := ih
      exact ⟨_, hs.step hstep⟩

/-- What holds without a past and is kept by every step holds of every run. -/
theorem History.invariant {I : List (σ × α) → σ → Prop} (start : ∀ s, S.init s → I [] s)
    (kept : ∀ past s a s', S.Reachable s → I past s → S.step s a s' → I ((s, a) :: past) s')
    {past : List (σ × α)} {s : σ} (h : S.History past s) : I past s := by
  induction h with
  | init hs => exact start _ hs
  | step hs hstep ih => exact kept _ _ _ _ hs.reachable ih hstep

/-- A run of the restricted system is a run of the system. -/
theorem Reachable.of_restrict {C : σ → α → Prop} {s : σ} (h : (S.restrict C).Reachable s) :
    S.Reachable s := by
  induction h with
  | init hs => exact .init hs
  | step _ hstep ih => exact ih.step hstep.2

theorem Reachable.stepIf {C : σ → α → Prop} {s s' : σ} {a : α} (h : (S.restrict C).Reachable s)
    (hstep : S.step s a s') (meets : C s a) : (S.restrict C).Reachable s' :=
  h.step ⟨meets, hstep⟩

theorem Path.of_restrict {C : σ → α → Prop} {s t : σ} (p : (S.restrict C).Path s t) :
    S.Path s t := by
  induction p with
  | refl => exact .refl
  | tail _ hstep ih => exact ih.tail hstep.2

/-- A condition that every step meets restricts nothing. -/
theorem Reachable.unrestricted {s : σ} (h : S.Reachable s) :
    (S.restrict fun _ _ => True).Reachable s := by
  induction h with
  | init hs => exact .init hs
  | step _ hstep ih => exact ih.step ⟨trivial, hstep⟩

/-- Every run of a system is a run of the system it refines, seen through a map of the states
under which a step is a step or changes nothing. -/
theorem Reachable.map {τ β : Type} {T : System τ β} (view : σ → τ)
    (start : ∀ s, S.init s → T.init (view s))
    (simulates : ∀ s a s', S.Reachable s → S.step s a s' →
      view s' = view s ∨ ∃ b, T.step (view s) b (view s')) {s : σ} (h : S.Reachable s) :
    T.Reachable (view s) := by
  induction h with
  | init hs => exact .init (start _ hs)
  | step hs hstep ih =>
      rcases simulates _ _ _ hs hstep with same | ⟨b, hb⟩
      · exact same ▸ ih
      · exact ih.step hb

/-! ## Deterministic steps -/

/-- The system whose steps are a partial function of the state and the label. -/
def ofNext (init : σ → Prop) (next : σ → α → Option σ) : System σ α where
  init := init
  step s a s' := next s a = some s'

/-- The state after a list of labels. -/
def runs (next : σ → α → Option σ) (s : σ) : List α → Option σ
  | [] => some s
  | a :: rest => (next s a).bind fun t => runs next t rest

theorem Path.runs {init : σ → Prop} {next : σ → α → Option σ} :
    ∀ {labels : List α} {s s' : σ}, System.runs next s labels = some s' →
      (ofNext init next).Path s s'
  | [], _, _, hrun => by
      cases hrun
      exact .refl
  | _ :: _, _, _, hrun => by
      obtain ⟨t, hnext, hrest⟩ := Option.bind_eq_some_iff.mp hrun
      exact (Path.refl.tail hnext).trans (Path.runs hrest)

theorem History.runs {init : σ → Prop} {next : σ → α → Option σ} :
    ∀ {labels : List α} {past : List (σ × α)} {s s' : σ}, (ofNext init next).History past s →
      System.runs next s labels = some s' → ∃ past', (ofNext init next).History past' s'
  | [], past, _, _, h, hrun => by
      cases hrun
      exact ⟨past, h⟩
  | _ :: _, _, _, _, h, hrun => by
      obtain ⟨t, hnext, hrest⟩ := Option.bind_eq_some_iff.mp hrun
      exact History.runs (h.step hnext) hrest

theorem Reachable.runs {init : σ → Prop} {next : σ → α → Option σ} {labels : List α} {s s' : σ}
    (h : (ofNext init next).Reachable s) (hrun : System.runs next s labels = some s') :
    (ofNext init next).Reachable s' :=
  h.path (Path.runs hrun)

/-- A run by labels that meet a condition in every state. -/
theorem Reachable.runsWithin {init : σ → Prop} {next : σ → α → Option σ} {C : σ → α → Prop} :
    ∀ {labels : List α} {s s' : σ}, (∀ a ∈ labels, ∀ t, C t a) →
      ((ofNext init next).restrict C).Reachable s → System.runs next s labels = some s' →
      ((ofNext init next).restrict C).Reachable s'
  | [], _, _, _, h, hrun => by
      cases hrun
      exact h
  | a :: _, s, _, within, h, hrun => by
      obtain ⟨t, hnext, hrest⟩ := Option.bind_eq_some_iff.mp hrun
      have step : ((ofNext init next).restrict C).step s a t :=
        ⟨within a (List.mem_cons_self ..) s, hnext⟩
      exact Reachable.runsWithin (fun b hb => within b (List.mem_cons_of_mem _ hb)) (h.step step)
        hrest

/-- The state after a list of labels that meet a condition, each in its state. -/
def runsIf (next : σ → α → Option σ) (C : σ → α → Prop) [∀ s, DecidablePred (C s)] (s : σ) :
    List α → Option σ
  | [] => some s
  | a :: rest => if C s a then (next s a).bind fun t => runsIf next C t rest else none

theorem Reachable.runsIf {init : σ → Prop} {next : σ → α → Option σ} {C : σ → α → Prop}
    [∀ s, DecidablePred (C s)] : ∀ {labels : List α} {s s' : σ},
      ((ofNext init next).restrict C).Reachable s → System.runsIf next C s labels = some s' →
      ((ofNext init next).restrict C).Reachable s'
  | [], _, _, h, hrun => by
      cases hrun
      exact h
  | _ :: _, _, _, h, hrun => by
      rw [System.runsIf] at hrun
      split at hrun
      case isTrue meets =>
        obtain ⟨t, hnext, hrest⟩ := Option.bind_eq_some_iff.mp hrun
        exact Reachable.runsIf (h.step ⟨meets, hnext⟩) hrest
      case isFalse => cases hrun

end System

end Library

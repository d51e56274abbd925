import MiHarness.Scheduler.Effects

/-!
# Invariants of every run

`Store.Base` holds in every state of the system: a flagged run is being cancelled or has
ended, and the dependencies form a tree.  It is what the refinement needs, so every step of
the system is a sequence of writes, and `System.Reachable.writes` turns a fact that writes
keep into a fact about every reachable state.
-/

namespace MiHarness

open Library

variable {D : Discipline} {now : Time} {s s' : Store} {host : Host}

/-- What every state of the system satisfies. -/
structure Store.Base (s : Store) : Prop where
  flagged : ∀ rid r, s.runs.get? rid = some r → r.cancelRequested = true →
    r.status = .cancelling ∨ r.status.terminal = true
  tree : s.Tree

theorem Store.Base.queuedGo (base : s.Base) : s.QueuedGo := by
  intro rid r hr queued
  cases flag : r.cancelRequested with
  | false => rfl
  | true =>
      rcases base.flagged rid r hr flag with h | h <;> rw [queued] at h <;> cases h

theorem Store.Base.initial : Store.initial.Base where
  flagged _ _ h := by cases h
  tree := ⟨fun h => (by cases h), fun h => (by cases h)⟩

/-! ## Writes keep it -/

theorem RunEffect.flagged {rid : RunId} {r' : Run} (e : RunEffect D now s s' rid r')
    (before : ∀ r, s.runs.get? rid = some r → r.cancelRequested = true →
      r.status = .cancelling ∨ r.status.terminal = true)
    (flag : r'.cancelRequested = true) : r'.status = .cancelling ∨ r'.status.terminal = true := by
  cases e with
  | kept hr => exact before _ hr flag
  | added _ fresh => rw [fresh.goes] at flag; cases flag
  | claimed _ _ goes => rw [goes] at flag; cases flag
  | released hr review => have := before _ hr flag; simp [review, RunStatus.terminal] at this
  | finished _ _ ends => exact .inr ends
  | moved hr m =>
      have before := before _ hr
      cases m with
      | checkpointed => exact before flag
      | inputAdvanced => exact before flag
      | cancelling => exact .inl rfl
      | woken _ goes => rw [goes] at flag; cases flag
      | suspended running => have := before flag; simp [running, RunStatus.terminal] at this
      | reviewed live =>
          have := before flag
          rcases live with live | live <;> simp [live, RunStatus.terminal] at this
      | lost running => have := before flag; simp [running, RunStatus.terminal] at this
      | requeued lost => have := before flag; simp [lost, RunStatus.terminal] at this

/-- A write keeps the dependencies or adds one for a new run. -/
theorem Write.dependencies (w : Write D now s s') : s'.dependencies = s.dependencies ∨
    ∃ key d child parent, s.dependencies.insert? key d = some s'.dependencies ∧
      s.runs.get? d.childId = none ∧ s'.runs.get? d.childId = some child ∧
      s.runs.get? d.parentId = some parent ∧ s'.runs.get? d.parentId = some parent ∧
      parent.status = .running ∧ child.depth = parent.depth + 1 ∧ child.status = .queued ∧
      (D.childrenLater → ¬Store.createdBefore (d.childId, child) (d.parentId, parent)) := by
  cases w with
  | childAdded hinsert hdependency same fresh hparent running deeper later =>
      subst same
      obtain ⟨absent, rows⟩ := Table.insert?_eq_some hinsert
      refine .inr ⟨_, _, _, _, hdependency, absent, ?_, hparent, ?_, running, deeper, fresh.queued,
        later⟩
      · rw [rows, if_pos rfl]
      · rw [rows, if_neg, hparent]
        intro same
        rw [same, absent] at hparent
        cases hparent
  | _ => exact .inl rfl

theorem Store.Tree.write (tree : s.Tree) (w : Write D now s s') : s'.Tree := by
  have rows : ∀ {k d}, s.dependencies.get? k = some d → ∃ parent child,
      s'.runs.get? d.parentId = some parent ∧ s'.runs.get? d.childId = some child ∧
        child.depth = parent.depth + 1 := by
    intro k d hd
    obtain ⟨parent, child, hparent, hchild, deeper⟩ := tree.rows hd
    obtain ⟨parent', hparent', sameParent⟩ := w.run_stays hparent
    obtain ⟨child', hchild', sameChild⟩ := w.run_stays hchild
    exact ⟨parent', child', hparent', hchild',
      by rw [sameChild.depth, sameParent.depth, deeper]⟩
  rcases w.dependencies with same | ⟨key, new, child, parent, hinsert, absent, hchild, hparent, -,
    -, deeper, -⟩
  · refine ⟨fun h h' => ?_, fun h => rows (same ▸ h)⟩
    exact tree.single (same ▸ h) (same ▸ h')
  obtain ⟨-, keys⟩ := Table.insert?_eq_some hinsert
  have unborn : ∀ {k d}, s.dependencies.get? k = some d → d.childId ≠ new.childId := by
    intro k d hd same
    obtain ⟨-, child, -, hchild, -⟩ := tree.rows hd
    rw [same, absent] at hchild
    cases hchild
  constructor
  · intro k d k' d' h h' same
    rw [keys] at h h'
    split at h <;> split at h'
    · exact ‹k = key›.trans ‹k' = key›.symm
    · cases h
      exact absurd same.symm (unborn h')
    · cases h'
      exact absurd same (unborn h)
    · exact tree.single h h' same
  · intro k d h
    rw [keys] at h
    split at h
    · cases h
      obtain ⟨parent', hparent', sameParent⟩ := w.run_stays hparent
      exact ⟨parent', child, hparent', hchild, by rw [deeper, sameParent.depth]⟩
    · exact rows h

theorem Store.Base.write (base : s.Base) (w : Write D now s s') : s'.Base where
  flagged rid _ h := (w.runEffect h).flagged (base.flagged rid)
  tree := base.tree.write w

/-! ## Runs of the system -/

/-- What every write keeps, a sequence of writes keeps. -/
theorem Writes.invariant {I : Store → Prop} (kept : ∀ t t', I t → Write D now t t' → I t')
    (w : Writes D now s s') (h : I s) : I s' := by
  induction w with
  | refl => exact h
  | tail _ w ih => exact kept _ _ ih w

/-- The discipline that asks for nothing is met by every step. -/
theorem Discipline.meets_free (host : Host) (s : Store) (now : Time) (a : Action) :
    Discipline.Meets {} host s now a where
  scope := .all host s now a
  cancel _ _ _ _ := ⟨not_false, False.elim⟩
  settle _ _ _ _ _ := ⟨False.elim, False.elim, False.elim, False.elim⟩
  reconcile _ _ _ _ _ := False.elim
  delegate _ _ _ _ _ _ := False.elim

theorem reachable_base {w : World} (h : (system host).Reachable w) : w.store.Base := by
  refine h.invariant (I := fun w => w.store.Base) (fun w start => ?_) fun w a w' _ base step => ?_
  · rw [show w.store = .initial from start]
    exact .initial
  · have writes := (next_writes base.queuedGo base.tree (Discipline.meets_free ..) step).2
    exact writes.invariant (fun _ _ base w => base.write w) base

/-- A step from a reachable state passes time or is a sequence of writes. -/
theorem step_writes {w w' : World} {a : Action} (h : (system host).Reachable w)
    (meets : D.Meets host w.store w.now a) (step : (system host).step w a w') :
    w.now ≤ w'.now ∧ Writes D w.now w.store w'.store :=
  have base := reachable_base h
  next_writes base.queuedGo base.tree meets step

/-- What writes keep is true in every run whose steps meet the discipline. -/
theorem reachable_of_writes {C : World → Action → Prop} {I : Store → Prop} (start : I .initial)
    (meets : ∀ w a, (system host).Reachable w → I w.store → C w a → D.Meets host w.store w.now a)
    (kept : ∀ now s s', s.Base → I s → Write D now s s' → I s') {w : World}
    (h : ((system host).restrict C).Reachable w) : I w.store := by
  refine h.invariant (I := fun w => I w.store) (fun w hw => ?_) fun w a w' hw hI hstep => ?_
  · rw [show w.store = .initial from hw]
    exact start
  · have reach := hw.of_restrict
    have writes := (step_writes reach (meets w a reach hI hstep.1) hstep.2).2
    refine (writes.invariant (I := fun t => t.Base ∧ I t) (fun t t' h wr => ?_)
      ⟨reachable_base reach, hI⟩).2
    exact ⟨h.1.write wr, kept _ _ _ h.1 h.2 wr⟩

/-- What writes keep is true in every reachable state. -/
theorem reachable_of_free_writes {I : Store → Prop} (start : I .initial)
    (kept : ∀ now s s', s.Base → I s → Write {} now s s' → I s') {w : World}
    (h : (system host).Reachable w) : I w.store :=
  reachable_of_writes start (fun _ _ _ _ _ => Discipline.meets_free ..) kept h.unrestricted

end MiHarness

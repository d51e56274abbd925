import MiHarness.Scheduler.Terminal

/-!
# Branches and slots

A claim takes the branch of a run, and the run keeps it until it ends: across waits, the queue
and the loss of its worker.  So a branch belongs to the one run on it that has started and not
ended.  Only a claim makes a run running, and it looks at the slots first.
-/

namespace MiHarness

open Library

variable {D : Discipline} {now : Time} {s s' : Store} {host : Host}

/-- The run has been claimed, has not been put back in the queue and has not ended. -/
def RunStatus.started (status : RunStatus) : Bool :=
  status ≠ .queued && !status.terminal

/-! ## Branches -/

/-- Who owns the branches. -/
structure Store.Owned (s : Store) : Prop where
  /-- A run that has started owns its branch. -/
  owner : ∀ rid r, s.runs.get? rid = some r → r.status.started = true →
    ∃ b, s.branches.get? r.branchId = some b ∧ b.activeRunId = some rid
  /-- A branch is owned by a run on it that has not ended. -/
  live : ∀ bid b rid, s.branches.get? bid = some b → b.activeRunId = some rid →
    ∃ r, s.runs.get? rid = some r ∧ r.branchId = bid ∧ r.status.terminal = false

theorem Store.Owned.initial : Store.initial.Owned where
  owner _ _ h := by cases h
  live _ _ _ h := by cases h

theorem RunMove.started {rid : RunId} {r r' : Run} (m : RunMove D now s rid r r')
    (started : r'.status.started = true) : r.status.started = true := by
  cases m with
  | checkpointed => exact started
  | inputAdvanced => exact started
  | suspended running => rw [running]; rfl
  | reviewed live => rcases live with live | live <;> rw [live] <;> rfl
  | woken waits => rcases waits with waits | waits <;> rw [waits] <;> rfl
  | lost running => rw [running]; rfl
  | requeued lost => rw [lost]; rfl
  | cancelling _ live claimed => simp [RunStatus.started, live, claimed]

/-- A run that has started had started before, or is claimed and owns its branch. -/
theorem RunEffect.started {rid : RunId} {r' : Run} (e : RunEffect D now s s' rid r')
    (started : r'.status.started = true) :
    (∃ r, s.runs.get? rid = some r ∧ r.status.started = true ∧ r'.branchId = r.branchId) ∨
      ∃ b, s.branches.get? r'.branchId = some b ∧ b.activeRunId = some rid := by
  cases e with
  | kept hr => exact .inl ⟨_, hr, started, rfl⟩
  | added _ fresh =>
      rw [fresh.queued] at started
      cases started
  | claimed _ _ _ _ _ _ _ owns =>
      obtain ⟨b, hb, active, -⟩ := owns
      exact .inr ⟨b, hb, active⟩
  | moved hr m => exact .inl ⟨_, hr, m.started started, m.same.branch⟩
  | released => cases started
  | finished _ _ ends =>
      rw [RunStatus.started, ends, Bool.not_true, Bool.and_false] at started
      cases started

/-- The owner of a branch keeps it unless it ends. -/
theorem Write.owner_stays (w : Write D now s s') {bid : BranchId} {b : Branch} {rid : RunId}
    (hb : s.branches.get? bid = some b) (active : b.activeRunId = some rid)
    {r' : Run} (hr' : s'.runs.get? rid = some r') (live : r'.status.terminal = false) :
    ∃ b', s'.branches.get? bid = some b' ∧ b'.activeRunId = some rid := by
  have stays : ∃ b', s'.branches.get? bid = some b' := w.branch_stays hb
  obtain ⟨b', hb'⟩ := stays
  refine ⟨b', hb', ?_⟩
  cases w.branchEffect hb' with
  | kept h =>
      cases hb.symm.trans h
      exact active
  | added absent =>
      rw [hb] at absent
      cases absent
  | revised h =>
      cases hb.symm.trans h
      exact active
  | taken h _ _ _ free =>
      cases hb.symm.trans h
      rw [active] at free
      rcases free with free | free
      · cases free
      · exact free.symm
  | givenUp h named hrun ends =>
      cases hb.symm.trans h
      cases active.symm.trans named
      cases hr'.symm.trans hrun
      rw [live] at ends
      cases ends

theorem Store.Owned.write (owned : s.Owned) (w : Write D now s s') : s'.Owned where
  owner rid r' hr' started := by
    have live : r'.status.terminal = false := by
      simp only [RunStatus.started, Bool.and_eq_true, Bool.not_eq_true'] at started
      exact started.2
    rcases (w.runEffect hr').started started with ⟨r, hr, before, same⟩ | ⟨b, hb, active⟩
    · obtain ⟨b, hb, active⟩ := owned.owner rid r hr before
      exact w.owner_stays (same ▸ hb) active hr' live
    · exact w.owner_stays hb active hr' live
  live bid b' rid hb' active := by
    -- a run that ends gives its branch up
    have stays : ∀ r, s.runs.get? rid = some r → r.branchId = bid → r.status.terminal = false →
        ∃ r', s'.runs.get? rid = some r' ∧ r'.branchId = bid ∧ r'.status.terminal = false := by
      intro r hr here live
      obtain ⟨r', hr', same⟩ := w.run_stays hr
      refine ⟨r', hr', same.branch.trans here, ?_⟩
      cases ends : r'.status.terminal with
      | false => rfl
      | true =>
          rcases (w.runEffect hr').ended ends with before | ⟨-, -, closed⟩
          · cases hr.symm.trans before
            rw [live] at ends
            cases ends
          · rw [same.branch, here] at closed
            exact absurd active (closed.branch b' hb')
    have owned : ∀ b, s.branches.get? bid = some b → b.activeRunId = some rid →
        ∃ r', s'.runs.get? rid = some r' ∧ r'.branchId = bid ∧ r'.status.terminal = false := by
      intro b hb named
      obtain ⟨r, hr, here, live⟩ := owned.live bid b rid hb named
      exact stays r hr here live
    cases w.branchEffect hb' with
    | kept hb => exact owned b' hb active
    | added _ idle =>
        rw [idle] at active
        cases active
    | revised hb => exact owned _ hb active
    | taken _ hrun queued here _ =>
        cases active
        exact stays _ hrun here (by rw [queued]; rfl)
    | givenUp => cases active

/-! ## Slots -/

/-- The runs that run are no more than the slots, and so are the children of one tree. -/
structure Store.Slotted (host : Host) (s : Store) : Prop where
  workers : runningRuns s.runs (fun _ => true) ≤ host.workerSlots
  children : ∀ root, runningRuns s.runs (fun r => r.rootRunId = root && r.parentRunId.isSome) ≤
    host.childConcurrency

/-- The steps as the slots see them: a claim has room for the run it takes. -/
def Discipline.slotted (host : Host) : Discipline := { scope := { takes := fun runs run _ => host.Room runs run } }

theorem Discipline.slotted_meets (host : Host) (s : Store) (now : Time) (a : Action) :
    (Discipline.slotted host).Meets host s now a where
  scope :=
    { worker := fun _ _ => trivial
      recover := fun _ _ _ _ => trivial
      starts := fun _ _ _ _ _ _ _ => trivial
      repeats := fun _ _ _ _ _ => trivial
      confirms := fun _ _ _ _ _ _ => trivial
      registers := fun _ _ _ _ _ => trivial
      asks := fun _ _ _ _ => trivial
      suspends := fun _ _ _ _ _ _ => ⟨trivial, fun _ _ => trivial⟩
      sends := fun _ _ _ _ _ => trivial
      takes := fun _ _ _ _ _ _ _ _ _ _ room => room
      answers := fun _ _ => trivial
      revises := fun _ _ _ _ _ => trivial }
  cancel _ _ _ _ := ⟨not_false, False.elim⟩
  settle _ _ _ _ _ := ⟨False.elim, False.elim, False.elim, False.elim⟩
  reconcile _ _ _ _ _ := False.elim
  delegate _ _ _ _ _ _ := False.elim

theorem RunMove.running {rid : RunId} {r r' : Run} (m : RunMove D now s rid r r')
    (running : r'.status = .running) : r.status = .running := by
  cases m with
  | checkpointed => exact running
  | inputAdvanced => exact running
  | suspended _ waits => rcases waits with h | h | h <;> rw [h] at running <;> cases running
  | _ => cases running

/-- A write makes no run running, except that a claim takes one, of the tree and the depth it has. -/
theorem Write.runningRuns (w : Write D now s s') (p : Run → Bool)
    (same : ∀ r r', r.Same r' → p r' = p r) :
    runningRuns s'.runs p ≤ runningRuns s.runs p ∨
      ∃ run thread, D.scope.takes s.runs run thread ∧ runningRuns s'.runs p ≤ runningRuns s.runs p + 1 ∧
        (p run = false → runningRuns s'.runs p ≤ runningRuns s.runs p) := by
  have modified : ∀ {rid : RunId} {r : Run} {f : Run → Run}, s.runs.get? rid = some r →
      r.Same (f r) → ((f r).status = .running → r.status = .running) →
      MiHarness.runningRuns (s.runs.modify rid f) p ≤ MiHarness.runningRuns s.runs p := by
    intro rid r f hr hsame running
    refine Table.length_select_modify hr fun counted => ?_
    simp only [Bool.and_eq_true, decide_eq_true_eq] at counted ⊢
    exact ⟨running counted.1, same r (f r) hsame ▸ counted.2⟩
  have inserted : ∀ {rid : RunId} {row : Run} {runs : Table RunId Run},
      s.runs.insert? rid row = some runs → row.status = .queued →
      MiHarness.runningRuns runs p ≤ MiHarness.runningRuns s.runs p := by
    intro rid row runs hinsert queued
    exact (Table.length_select_insert? hinsert (by simp [queued])).le
  cases w with
  | runAdded hinsert fresh => exact .inl (inserted hinsert fresh.queued)
  | childAdded hinsert _ _ fresh => exact .inl (inserted hinsert fresh.queued)
  | @claimed _ run _ _ _ _ f hrun _ _ _ _ _ _ _ _ row takes =>
      refine .inr ⟨run, _, takes, Table.length_select_modify_le .., fun other => ?_⟩
      refine Table.length_select_modify hrun fun counted => ?_
      have keeps : run.Same (f run) := by
        rw [row]
        exact ⟨rfl, rfl, rfl, rfl, rfl, rfl⟩
      have claimed := (Bool.and_eq_true_iff.mp counted).2
      rw [same run _ keeps, other] at claimed
      cases claimed
  | runMoved hrun m => exact .inl (modified hrun m.same m.running)
  | released hrun review _ _ _ _ _ _ _ row =>
      refine .inl (modified hrun ?_ ?_) <;> rw [row]
      · exact ⟨rfl, rfl, rfl, rfl, rfl, rfl⟩
      · simp
  | finished _ _ _ _ _ hrun _ ends _ _ _ _ row =>
      refine .inl (modified hrun ?_ ?_) <;> rw [row]
      · exact ⟨rfl, rfl, rfl, rfl, rfl, rfl⟩
      · rintro rfl
        cases ends
  | _ => exact .inl (Nat.le_refl _)

theorem Store.Slotted.write (slotted : s.Slotted host) (w : Write (.slotted host) now s s') :
    s'.Slotted host where
  workers := by
    rcases w.runningRuns (fun _ => true) fun _ _ _ => rfl with fewer | ⟨run, _, room, more, -⟩
    · exact fewer.trans slotted.workers
    · exact more.trans room.workers
  children root := by
    rcases w.runningRuns (fun r => r.rootRunId = root && r.parentRunId.isSome) fun r r' same => by
      rw [same.root, same.parent] with fewer | ⟨run, _, room, more, apart⟩
    · exact fewer.trans (slotted.children root)
    by_cases member : run.rootRunId = root ∧ run.parentRunId.isSome = true
    · obtain ⟨rfl, child⟩ := member
      exact more.trans (room.children child)
    · exact (apart (by simpa using member)).trans (slotted.children root)

/-! ## Runs of the system -/

/-- In every reachable state a branch belongs to the one run on it that has started and not ended,
and the running runs fit the slots. -/
theorem branch_exclusive {w : World} (h : (system host).Reachable w) :
    (∀ rid r, w.store.runs.get? rid = some r → r.status.started = true →
        ∃ b, w.store.branches.get? r.branchId = some b ∧ b.activeRunId = some rid ∧
          ∀ rid' r', w.store.runs.get? rid' = some r' → r'.branchId = r.branchId →
            r'.status.started = true → rid' = rid) ∧
      (∀ bid b rid, w.store.branches.get? bid = some b → b.activeRunId = some rid →
        ∃ r, w.store.runs.get? rid = some r ∧ r.status.terminal = false) ∧
      (w.store.runsWith [.running]).length ≤ host.workerSlots ∧
      ∀ root, ((w.store.runsWith [.running]).filter fun e =>
        e.2.rootRunId = root && e.2.parentRunId.isSome).length ≤ host.childConcurrency := by
  have owned : w.store.Owned :=
    reachable_of_free_writes .initial (fun _ _ _ _ owned w => owned.write w) h
  have slotted : w.store.Slotted host :=
    reachable_of_writes (D := .slotted host) (I := Store.Slotted host)
      ⟨Nat.zero_le _, fun _ => Nat.zero_le _⟩ (fun _ _ _ _ _ => Discipline.slotted_meets ..)
      (fun _ _ _ _ slotted w => slotted.write w) h.unrestricted
  refine ⟨fun rid r hr started => ?_, fun bid b rid hb active => ?_, ?_, fun root => ?_⟩
  · obtain ⟨b, hb, active⟩ := owned.owner rid r hr started
    refine ⟨b, hb, active, fun rid' r' hr' here started' => ?_⟩
    obtain ⟨b', hb', active'⟩ := owned.owner rid' r' hr' started'
    rw [here] at hb'
    cases hb.symm.trans hb'
    exact Option.some.inj (active'.symm.trans active)
  · obtain ⟨r, hr, -, live⟩ := owned.live bid b rid hb active
    exact ⟨r, hr, live⟩
  · have workers := slotted.workers
    rwa [runningRuns_eq, List.filter_true] at workers
  · have children := slotted.children root
    rwa [runningRuns_eq] at children

/-- Two runs are submitted on a branch, and the second has to wait for the first. -/
theorem branch_exclusive_busy : ∃ (w : World) (r r' : Run), w.store.runs.get? 10 = some r ∧
    r.status = .running ∧ w.store.runs.get? 12 = some r' ∧ r'.status = .queued ∧
    (∃ b, w.store.branches.get? r.branchId = some b ∧ b.activeRunId = some 10) ∧
    (w.store.runsWith [.running]).length ≤ 4 := by
  have run : (System.runs (World.next Sample.host) Sample.start (Sample.submitted ++
      [.submit 1 1 ⟨1, 1, 2, 1, "next", ∅, 1000000⟩ 12, .claim ⟨1, 1⟩ 20, .claim ⟨1, 1⟩ 21])).any
      (fun w => ((w.store.runs.get? 10).any fun r => decide (r.status = .running)) &&
        (w.store.runs.get? 12).any fun r => decide (r.status = .queued)) = true := by decide
  simp only [Option.any_eq_true, Bool.and_eq_true, decide_eq_true_eq] at run
  obtain ⟨w, hw, ⟨r, hr, running⟩, r', hr', queued⟩ := run
  obtain ⟨owns, -, slots, -⟩ := branch_exclusive (Sample.reachable hw)
  obtain ⟨b, hb, active, -⟩ := owns 10 r hr (by rw [running]; rfl)
  exact ⟨w, r, r', hr, running, hr', queued, ⟨b, hb, active⟩, slots⟩

end MiHarness

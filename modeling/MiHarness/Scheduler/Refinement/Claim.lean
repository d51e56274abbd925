import MiHarness.Scheduler.Refinement.Transition

/-!
# Admission, claims and delegation refine the row protocol
-/

namespace MiHarness

open Library

variable {D : Discipline} {now : Time} {s s' : Store}

/-! ## Admission and claims -/

theorem submit_writes {owner : OwnerId} {session : SessionId} {request : Submission}
    {fresh : RunId} (revises : D.scope.revises)
    (h : submit s owner session request fresh now = .ok s') : Writes D now s s' := by
  simp only [submit, bind_eq_ok, require_eq_ok, exists_const] at h
  obtain ⟨-, branch, -, -, t, hadvance, u, hinsert, ledger, -, h⟩ := h
  cases h
  obtain rfl := Store.advanceBranch_eq_ok hadvance
  obtain ⟨runs, hruns, rfl⟩ := Store.insertRun_eq_ok hinsert
  exact (((Write.branchRevised request.branchId revises).writes.then
    (.runAdded hruns ⟨rfl, rfl, rfl, rfl, rfl, rfl, rfl⟩)).then (.ledger ledger)).then
    (.event _ _ _ _)

theorem takeRun_writes {host : Host} {process : ProcessId} {rid : RunId} {run : Run}
    {branch : Branch} {fresh : AttemptId}
    (hrun : s.runs.get? rid = some run) (goes : run.cancelRequested = false)
    (hbranch : s.branches.get? run.branchId = some branch)
    (free : branch.activeRunId = none ∨ branch.activeRunId = some rid)
    (takes : D.scope.takes s.runs run branch.graphThreadKey)
    (h : takeRun host s process rid run branch.activeRunId fresh now = .ok s') :
    Writes D now s s' := by
  simp only [takeRun, bind_eq_ok] at h
  obtain ⟨t, howner, u, hattempt, h⟩ := h
  obtain ⟨-, rfl⟩ := Store.setBranchOwner_eq_ok howner
  obtain ⟨attempts, hinsert, rfl⟩ := Store.addAttempt_eq_ok hattempt
  obtain ⟨row, events, hrow, allowed, -, rfl⟩ := transition_moved h rfl
  cases hrun.symm.trans hrow
  have queued : run.status = .queued := by
    revert allowed
    cases run.status <;> simp [RunStatus.allowed]
  have taken : (s.branches.modify run.branchId
      fun b => { b with activeRunId := some rid }).get? run.branchId =
        some { branch with activeRunId := some rid } := by simp [hbranch]
  exact ((Write.branchTaken hrun queued hbranch free takes).writes.then
    (.claimed hrun queued goes taken rfl hinsert rfl rfl rfl rfl takes)).then (.events events)

theorem claimFrom_writes {host : Host} {running : List (RunId × Run)} {process : ProcessId}
    {fresh : AttemptId} {taken : Option RunId}
    (takes : ∀ rid run branch, taken = some rid → s.runs.get? rid = some run →
      s.branches.get? run.branchId = some branch → ¬(run.parentRunId.isSome ∧ host.childConcurrency ≤ (running.filter fun e =>
        e.2.rootRunId = run.rootRunId && e.2.parentRunId.isSome).length) →
      D.scope.takes s.runs run branch.graphThreadKey) :
    ∀ {queued : List (RunId × Run)},
      (∀ e ∈ queued, s.runs.get? e.1 = some e.2 ∧ e.2.cancelRequested = false) →
      claimFrom host running process fresh now queued s = .ok (taken, s') → Writes D now s s'
  | [], _, h => by
      cases h
      exact .refl
  | (rid, run) :: rest, rows, h => by
      obtain ⟨hrun, goes⟩ := rows (rid, run) (List.mem_cons_self ..)
      have later := fun e he => rows e (List.mem_cons_of_mem _ he)
      simp only [claimFrom, bind_eq_ok, Store.branch_eq_ok] at h
      obtain ⟨branch, hbranch, h⟩ := h
      split at h
      · exact claimFrom_writes takes later h
      rename_i free
      split at h
      · rename_i flagged
        rw [goes] at flagged
        cases flagged
      split at h
      · exact claimFrom_writes takes later h
      · rename_i room
        obtain ⟨t, htake, h⟩ := bind_eq_ok.mp h
        cases h
        refine takeRun_writes hrun goes hbranch ?_ (takes rid run branch rfl hrun hbranch room) htake
        by_contra busy
        exact free (not_or.mp busy)

/-- The number of running runs of a kind. -/
def runningRuns (runs : Table RunId Run) (p : Run → Bool) : Nat :=
  (runs.select fun _ r => decide (r.status = .running) && p r).length

/-- The slots are not all taken when a run is. -/
structure Host.Room (host : Host) (runs : Table RunId Run) (run : Run) : Prop where
  workers : runningRuns runs (fun _ => true) < host.workerSlots
  children : run.parentRunId.isSome = true →
    runningRuns runs (fun r => r.rootRunId = run.rootRunId && r.parentRunId.isSome) <
      host.childConcurrency

/-- They are among those that `runsWith` lists. -/
theorem length_runsWith (s : Store) (statuses : List RunStatus) (p : Run → Bool) :
    ((s.runsWith statuses).filter fun e => p e.2).length =
      (s.runs.select fun _ r => decide (r.status ∈ statuses) && p r).length := by
  have sorted := (List.perm_insertionSort Store.createdBefore
    (s.runs.select fun _ r => decide (r.status ∈ statuses))).filter fun e => p e.2
  rw [Store.runsWith, sorted.length_eq, Table.select, Table.select, List.filter_filter]
  refine congrArg List.length (List.filter_congr fun e _ => ?_)
  rw [Bool.and_comm]

/-- The runs of a kind that `claim` counts are at least those that are running. -/
theorem runningRuns_le (s : Store) (p : Run → Bool) :
    runningRuns s.runs p ≤ ((s.runsWith [.running, .cancelling]).filter fun e => p e.2).length := by
  rw [length_runsWith, runningRuns, Table.select, Table.select]
  refine List.Sublist.length_le (List.monotone_filter_right _ fun e he => ?_)
  simp only [Bool.and_eq_true, decide_eq_true_eq] at he ⊢
  exact ⟨by simp [he.1], he.2⟩

theorem runningRuns_eq (s : Store) (p : Run → Bool) :
    runningRuns s.runs p = ((s.runsWith [.running]).filter fun e => p e.2).length := by
  rw [length_runsWith, runningRuns]
  simp only [List.mem_singleton]

/-- No queued run is flagged for cancellation. -/
def Store.QueuedGo (s : Store) : Prop :=
  ∀ rid run, s.runs.get? rid = some run → run.status = .queued → run.cancelRequested = false

theorem claim_writes {host : Host} {process : ProcessId} {fresh : AttemptId} {taken : Option RunId}
    (go : s.QueuedGo) (takes : ∀ rid run branch, taken = some rid → s.runs.get? rid = some run →
      s.branches.get? run.branchId = some branch → host.Room s.runs run →
      D.scope.takes s.runs run branch.graphThreadKey)
    (h : claim host s process fresh now = .ok (taken, s')) : Writes D now s s' := by
  unfold claim at h
  split at h
  · cases h
    exact .refl
  dsimp only at h
  split at h
  · cases h
    exact .refl
  · rename_i free
    refine claimFrom_writes (fun rid run branch same hrun hbranch room =>
      takes rid run branch same hrun hbranch ⟨?_, fun child => ?_⟩) (fun e he => ?_) h
    · have counted := runningRuns_le s fun _ => true
      rw [List.filter_true] at counted
      exact counted.trans_lt (Nat.lt_of_not_le free)
    · refine (runningRuns_le s _).trans_lt (Nat.lt_of_not_le fun full => room ⟨child, full⟩)
    · obtain ⟨hrow, hstatus⟩ := Store.mem_runsWith.mp he
      exact ⟨hrow, go e.1 e.2 hrow (List.mem_singleton.mp hstatus)⟩

theorem heartbeat_writes {host : Host} {ctx : ExecutionContext}
    (h : heartbeat host s ctx now = .ok s') : Writes D now s s' := by
  obtain ⟨fence, rfl⟩ := Store.heartbeat_eq_ok h
  obtain ⟨row, hrow, ⟨row', hrow', -, named, attempt, hattempt, -, alive⟩, status, -⟩ :=
    Store.assertFence_eq_ok.mp fence
  cases hrow.symm.trans hrow'
  exact (Write.heartbeat _ hrow (status.imp_right And.right) named hattempt alive).writes

/-! ## Delegation and steering -/

theorem delegate_writes {host : Host} {ctx : ExecutionContext} {key : OperationKey}
    {request : DelegateRequest} {allowed : List String} {ids : DelegateIds} {child : RunId}
    (later : D.childrenLater → s.dependencies.get? key = none → ∀ parent, s.runs.get? ctx.runId = some parent →
      ¬Store.createdBefore (ids.run, childRow ctx parent request ids now) (ctx.runId, parent))
    (h : delegate host s ctx key request allowed ids now = .ok (child, s')) : Writes D now s s' := by
  unfold delegate at h
  obtain ⟨_, hboundary, hbody⟩ := bind_eq_ok.mp h
  obtain ⟨_, fence, -⟩ := bind_eq_ok.mp hboundary
  split at hbody
  · simp only [bind_eq_ok, require_eq_ok, exists_const, Except.ok.injEq, Prod.mk.injEq] at hbody
    exact hbody.2.2 ▸ .refl
  rename_i new
  simp only [bind_eq_ok, require_eq_ok, Store.run_eq_ok, exists_const, Except.ok.injEq,
    Prod.mk.injEq] at hbody
  obtain ⟨parent, hparent, root, -, -, -, t, hchild, rfl, rfl⟩ := hbody
  simp only [addChild, bind_eq_ok, Except.ok.injEq] at hchild
  obtain ⟨ledger, -, u, hbranch, v, hinsert, w, hdependency, ledger', -, rfl⟩ := hchild
  obtain ⟨branches, hbranches, rfl, unique⟩ := Store.addBranch_eq_ok hbranch
  obtain ⟨runs, hruns, rfl⟩ := Store.insertRun_eq_ok hinsert
  obtain ⟨dependencies, hdependencies, rfl⟩ := Store.addDependency_eq_ok hdependency
  obtain ⟨row, hrow, running⟩ := Store.Running.of_fence fence
  cases hparent.symm.trans hrow
  exact (((((Write.ledger ledger).writes.then (.branchAdded hbranches rfl unique)).then
    (.childAdded hruns hdependencies rfl ⟨rfl, rfl, rfl, rfl, rfl, rfl, rfl⟩ hparent running rfl
      fun d => later d new parent hparent)).then (.ledger ledger')).then (.event _ _ _ _)).then
    (.event _ _ _ _)

theorem addWait_writes {parent : RunId} {key : OperationId} {children : List RunId}
    {mode : WaitMode} {fresh wid : WaitId} {w : Wait}
    (h : s.addWait parent key children mode fresh = .ok (wid, w, s')) : Writes D now s s' := by
  rcases Store.addWait_eq_ok h with rfl | ⟨rfl, waits, hwaits, rfl⟩
  · exact .refl
  · exact (Write.waitAdded hwaits rfl rfl).writes

theorem prepareWait_writes {ctx : ExecutionContext} {key : OperationId} {children : List RunId}
    {mode : WaitMode} {fresh wid : WaitId} {w : Wait}
    (h : prepareWait s ctx key children mode fresh = .ok (wid, w, s')) : Writes D now s s' := by
  simp only [prepareWait, bind_eq_ok, require_eq_ok, exists_const] at h
  exact addWait_writes h.2

theorem steer_writes {owner : OwnerId} {rid : RunId} {text : String} {expected : Nat}
    {fresh : CommandId} (h : steer s owner rid text expected fresh = .ok s') : Writes D now s s' := by
  simp only [steer, bind_eq_ok, require_eq_ok, exists_const] at h
  obtain ⟨run, -, -, -, h⟩ := h
  obtain ⟨inputCommands, rfl⟩ := Store.addInputCommand_eq_ok h
  exact (Write.inputCommands inputCommands).writes

theorem ackInputCommands_writes {ctx : ExecutionContext} {ids : List CommandId}
    (h : s.ackInputCommands ctx ids now = .ok s') : Writes D now s s' := by
  obtain ⟨fence, row, hrow, ⟨-, rfl⟩ | ⟨later, rfl⟩⟩ := Store.ackInputCommands_eq_ok h
  · exact (Write.inputCommands _).writes
  · obtain ⟨run, hrun, running⟩ := Store.Running.of_fence fence
    cases hrow.symm.trans hrun
    have moved : Write D now s { s with runs := s.runs.modify ctx.runId fun r =>
        { r with inputRevision := ctx.inputRevision, revision := r.revision + 1 } } :=
      .runMoved hrun (.inputAdvanced _ running later)
    exact moved.writes.then (.inputCommands _)

end MiHarness

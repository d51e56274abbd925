import MiHarness.Scheduler.Recovery
import MiHarness.Storage.Inversion
import MiHarness.Tools.Operations

/-!
# The row protocol

`Write` is what a transaction may do to the rows of the scheduler, one row change at a time,
with the facts about other rows under which it happens.  It is the abstract scheduler: it
says nothing about the order of the changes, about events, budgets or the texts of errors.
Every transaction of the source is a sequence of writes, so an invariant of the writes is an
invariant of the system.

Some facts the source does not check.  `Discipline` names them: a discipline that holds adds
the fact to the write, and the code is then only known to take the write in runs that meet
the condition behind it.  The `Scope` of a step names what the step is for; a write outside it
is none of the step's.
-/

namespace MiHarness

open Library

/-- What a step may be about. -/
structure Scope where
  /-- The runs whose worker, or whose recovery, makes the step. -/
  acts : RunId → Prop := fun _ => True
  /-- The step grants and starts an operation. -/
  starts : Prop := True
  /-- The tools that may be called again after their attempt was lost. -/
  repeats : ToolId → String → Prop := fun _ _ => True
  /-- The operations that the user confirms were not executed. -/
  confirms : OperationId → Prop := fun _ => True
  /-- The operations that are registered. -/
  registers : Operation → Prop := fun _ => True
  /-- The questions put to the user. -/
  asks : RequestKey → Prop := fun _ => True
  /-- The step takes an exchange with a server further. -/
  exchanges : Prop := True
  /-- What a claim finds when it takes a run of the branch of a thread. -/
  takes : Table RunId Run → Run → ThreadKey → Prop := fun _ _ _ => True
  /-- The runs whose barrier the step raises or answers. -/
  answers : RunId → Prop := fun _ => True
  /-- The step accepts an input for a branch. -/
  revises : Prop := True

/-- Conditions that a run may meet and that the code does not enforce. -/
structure Discipline where
  scope : Scope := {}
  /-- A run ends only when its operations are resolved. -/
  resolved : Prop := False
  /-- A run ends only after its children. -/
  childrenFirst : Prop := False
  /-- A review is released only when the rest of its barrier is answered. -/
  wholeBarrier : Prop := False
  /-- A run is put under review only with an unknown operation. -/
  unknownReviewed : Prop := False
  /-- A child is created after its parent. -/
  childrenLater : Prop := False
  /-- A run waits for its own interactions and waits. -/
  sourced : Prop := False

/-! ## Facts about rows -/

/-- Every operation of the run that has started is known or accepted. -/
def Store.OpsResolved (s : Store) (rid : RunId) : Prop :=
  ∀ id o, s.operations.get? id = some o → o.runId = rid → o.unresolved = false

/-- Every child of the run has ended. -/
def Store.ChildrenEnded (s : Store) (rid : RunId) : Prop :=
  ∀ key d child, s.dependencies.get? key = some d → d.parentId = rid →
    s.runs.get? d.childId = some child → child.status.terminal = true

/-- Some operation of the run is unknown. -/
def Store.HasUnknown (s : Store) (rid : RunId) : Prop :=
  ∃ id o, s.operations.get? id = some o ∧ o.runId = rid ∧ o.state = .unknown

/-- The user or the children have answered an interrupt.  Nothing is asked of a review. -/
def Store.Answered (s : Store) (id : InterruptId) : Prop :=
  match id.request with
  | .user iid => ∃ i, s.interactions.get? iid = some i ∧ i.status.pending = false
  | .children wid => ∃ w, s.waits.get? wid = some w ∧ w.resolution.isSome
  | .review _ => True

/-- The row of the run that an interrupt waits for is bound to it. -/
def Store.Sourced (s : Store) (rid : RunId) (id : InterruptId) : Prop :=
  match id.request with
  | .user iid => ∃ i, s.interactions.get? iid = some i ∧ i.runId = rid ∧ i.interruptId = some id ∧
      (i.status = .open ∨ i.resolution.isSome)
  | .children wid => ∃ w, s.waits.get? wid = some w ∧ w.parentId = rid ∧ w.interruptId = some id ∧
      w.checkpointRef.isSome
  | .review _ => True

/-- A run that was just created. -/
structure Run.Fresh (r : Run) (now : Time) : Prop where
  queued : r.status = .queued
  unclaimed : r.attemptId = none
  token : r.fencingToken = 0
  goes : r.cancelRequested = false
  barrier : r.requiredInterrupts = []
  checkpoint : r.checkpointRef = none
  created : r.createdAt = now

/-- The status of the run the fence of a worker lets write. -/
def Store.Live (s : Store) (rid : RunId) : Prop :=
  ∃ run, s.runs.get? rid = some run ∧ (run.status = .running ∨ run.status = .cancelling)

/-- The last attempt of the run has ended. -/
def Store.AttemptOver (s : Store) (run : Run) : Prop :=
  ∀ aid attempt, run.attemptId = some aid → s.attempts.get? aid = some attempt →
    attempt.endedAt ≠ none

/-- The run is running. -/
def Store.Running (s : Store) (rid : RunId) : Prop :=
  ∃ run, s.runs.get? rid = some run ∧ run.status = .running

theorem Store.Live.of_fence {s : Store} {ctx : ExecutionContext} {now : Time} {allow : Bool}
    {u : Unit} (h : s.assertFence ctx now allow = .ok u) : s.Live ctx.runId := by
  obtain ⟨row, hrow, -, hstatus, -⟩ := assertFence_eq_ok.mp h
  exact ⟨row, hrow, hstatus.imp_right And.right⟩

theorem Store.Running.of_fence {s : Store} {ctx : ExecutionContext} {now : Time} {u : Unit}
    (h : s.assertFence ctx now = .ok u) : s.Running ctx.runId := by
  obtain ⟨row, hrow, -, hstatus, -⟩ := assertFence_eq_ok.mp h
  exact ⟨row, hrow, hstatus.resolve_right fun h => by simp at h⟩

/-! ## Moves of a row -/

/-- The changes of the row of a run that change nothing else and do not end the run. -/
inductive RunMove (D : Discipline) (now : Time) (s : Store) (rid : RunId) (r : Run) :
    Run → Prop where
  | checkpointed (ref : CheckpointRef) :
      (r.status = .running ∨ r.status = .cancelling) →
      RunMove D now s rid r { r with checkpointRef := some ref, revision := r.revision + 1 }
  | inputAdvanced (revision : Nat) :
      r.status = .running → r.inputRevision < revision →
      RunMove D now s rid r { r with inputRevision := revision, revision := r.revision + 1 }
  /-- The end of an attempt that waits for its interrupts. -/
  | suspended {status : RunStatus} {required : List InterruptId} :
      r.status = .running →
      (status = .waitingUser ∨ status = .waitingChildren ∨ status = .needsReview) →
      (status ≠ .needsReview → ∀ id ∈ required, ∀ oid, id.request ≠ .review oid) →
      (∀ id ∈ required, ∀ oid, id.request = .review oid →
        ∃ o, s.operations.get? oid = some o ∧ o.runId = rid) →
      (status = .needsReview → D.unknownReviewed → s.HasUnknown rid) →
      D.scope.acts rid → D.scope.answers rid → (D.sourced → ∀ id ∈ required, s.Sourced rid id) →
      RunMove D now s rid r
        { r with status, requiredInterrupts := required, revision := r.revision + 1 }
  /-- The end of an attempt that leaves an unresolved operation. -/
  | reviewed :
      (r.status = .running ∨ r.status = .recovering) →
      (D.unknownReviewed → s.HasUnknown rid) → D.scope.acts rid →
      RunMove D now s rid r { r with status := .needsReview, revision := r.revision + 1 }
  | woken :
      (r.status = .waitingUser ∨ r.status = .waitingChildren) → r.cancelRequested = false →
      ready s rid r = true →
      RunMove D now s rid r { r with status := .queued, revision := r.revision + 1 }
  | lost {aid : AttemptId} {attempt : Attempt} :
      r.status = .running → r.attemptId = some aid → s.attempts.get? aid = some attempt →
      attempt.leaseExpiry ≤ now →
      RunMove D now s rid r { r with status := .recovering, revision := r.revision + 1 }
  | requeued :
      r.status = .recovering → ¬s.HasUnknown rid → D.scope.acts rid →
      RunMove D now s rid r { r with status := .queued, revision := r.revision + 1 }
  /-- A run that cannot end at once is being cancelled. -/
  | cancelling (revision : Nat) :
      r.status.terminal = false → r.status ≠ .queued →
      RunMove D now s rid r { r with status := .cancelling, cancelRequested := true, revision }

/-- The operation has ended. -/
def OpState.finished : OpState → Bool
  | .succeeded | .failed | .cancelled => true
  | _ => false

/-- A patch that ends an operation records its result, and only a patch of the state touches the
result. -/
structure OperationPatch.Records (patch : OperationPatch) : Prop where
  kept : patch.state = none → patch.result = none
  ended : ∀ state, patch.state = some state → state.finished = true →
    ∃ result, patch.result = some (some result)

theorem OperationPatch.Records.noted {patch : OperationPatch} (h : patch.state = none)
    (h' : patch.result = none) : patch.Records where
  kept _ := h'
  ended _ hstate := by
    rw [h] at hstate
    cases hstate

theorem OperationPatch.Records.opened {patch : OperationPatch} {state : OpState}
    (h : patch.state = some state) (unfinished : state.finished = false) : patch.Records where
  kept hstate := by
    rw [h] at hstate
    cases hstate
  ended _ hstate finished := by
    cases h.symm.trans hstate
    rw [unfinished] at finished
    cases finished

theorem OperationPatch.Records.closed {patch : OperationPatch} {state : OpState}
    {result : ToolResult} (h : patch.state = some state) (h' : patch.result = some (some result)) :
    patch.Records where
  kept hstate := by
    rw [h] at hstate
    cases hstate
  ended _ _ _ := ⟨result, h'⟩

/-- The changes of the row of an operation that change nothing else. -/
inductive OperationMove (D : Discipline) (s : Store) (oid : OperationId) (o : Operation)
    (patch : OperationPatch) : Prop where
  /-- A step that its worker makes. -/
  | stepped :
      s.Live o.runId →
      ((∃ state, patch.state = some state ∧ (state = .authorized ∨ state = .running)) →
        s.Running o.runId ∧ D.scope.starts) →
      patch.state ≠ some .prepared →
      (patch.metadata.getD o.metadata).unresolvedAccepted = o.metadata.unresolvedAccepted →
      D.scope.acts o.runId →
      ((patch.metadata.getD o.metadata).protocolContinuation = o.metadata.protocolContinuation ∨
        D.scope.exchanges) →
      OperationMove D s oid o patch
  /-- The outcome of a running operation is lost or found out. -/
  | lost {run : Run} :
      o.state = .running → s.runs.get? o.runId = some run → run.status ∈ recoverable →
      (patch.state = some .unknown ∨ patch.state = some .succeeded ∨
        patch.state = some .prepared ∧ run.status ≠ .running) → patch.metadata = none →
      D.scope.acts o.runId →
      (patch.state = some .prepared → D.scope.repeats o.toolId o.toolRevision) →
      OperationMove D s oid o patch
  /-- The user decides an unknown operation, and the run stays under review. -/
  | reconciled {run : Run} :
      o.state = .unknown → s.runs.get? o.runId = some run →
      (run.status = .needsReview ∨ run.status = .cancelling) →
      (run.status = .needsReview →
        ∃ id o', s.operations.get? id = some o' ∧ o'.runId = o.runId ∧ o'.state = .unknown ∧
          id ≠ oid) →
      (patch.state = some .succeeded ∨ patch.state = some .prepared) → patch.metadata = none →
      (patch.state = some .prepared → o.metadata.provenNotStarted = true ∧ D.scope.confirms oid) →
      OperationMove D s oid o patch
  /-- The user accepts that the operation stays unknown. -/
  | accepted {run : Run} :
      o.state = .unknown → s.runs.get? o.runId = some run → run.status = .cancelling →
      patch.state = none →
      (patch.metadata.getD o.metadata).protocolContinuation = o.metadata.protocolContinuation →
      OperationMove D s oid o patch

/-- The changes of the row of an interaction that change nothing else. -/
inductive InteractionMove (s : Store) (iid : InteractionId) (i : Interaction) : Interaction → Prop
    where
  | bound {id : InterruptId} (checkpoint : CheckpointRef) :
      i.status = .pendingBinding → s.Running i.runId → id.request = .user iid →
      InteractionMove s iid i
        { i with interruptId := some id, checkpointRef := some checkpoint, status := .open
                 revision := i.revision + 1 }
  | resolved {status : InteractionStatus} (resolution : Resolution) :
      i.status = .open → status.pending = false →
      InteractionMove s iid i
        { i with status, resolution := some resolution, revision := i.revision + 1 }

/-- The changes of the row of a wait. -/
inductive WaitMove (wid : WaitId) (w : Wait) : Wait → Prop where
  | bound {id : InterruptId} (checkpoint : CheckpointRef) :
      id.request = .children wid →
      WaitMove wid w
        { w with interruptId := some id, checkpointRef := some checkpoint, revision := w.revision + 1 }
  | resolved (resolution : Resolution) :
      w.resolution = none →
      WaitMove wid w { w with resolution := some resolution, revision := w.revision + 1 }

/-! ## Writes -/

/-- One change of the rows of the scheduler. -/
inductive Write (D : Discipline) (now : Time) : Store → Store → Prop where
  /-- Events, notices, budgets, input commands and the maintenance flag. -/
  | books {s : Store} (ledger : Ledger) (events : EventLog) (outbox : Table RunId ChildNotice)
      (inputCommands : Table CommandId InputCommand) (maintenance : Bool) :
      Write D now s { s with ledger, events, outbox, inputCommands, maintenance }
  | branchAdded {s : Store} {bid : BranchId} {row : Branch} {branches : Table BranchId Branch} :
      s.branches.insert? bid row = some branches → row.activeRunId = none →
      (∀ bid' row', s.branches.get? bid' = some row' → row'.graphThreadKey ≠ row.graphThreadKey) →
      Write D now s { s with branches }
  | branchRevised {s : Store} (bid : BranchId) :
      D.scope.revises →
      Write D now s { s with
        branches := s.branches.modify bid fun b => { b with revision := b.revision + 1 } }
  | branchTaken {s : Store} {rid : RunId} {run : Run} {branch : Branch} :
      s.runs.get? rid = some run → run.status = .queued →
      s.branches.get? run.branchId = some branch →
      (branch.activeRunId = none ∨ branch.activeRunId = some rid) →
      D.scope.takes s.runs run branch.graphThreadKey →
      Write D now s { s with
        branches := s.branches.modify run.branchId fun b => { b with activeRunId := some rid } }
  | runAdded {s : Store} {rid : RunId} {row : Run} {runs : Table RunId Run} :
      s.runs.insert? rid row = some runs → row.Fresh now → Write D now s { s with runs }
  | childAdded {s : Store} {rid : RunId} {row parent : Run} {runs : Table RunId Run}
      {key : OperationKey} {d : Dependency} {dependencies : Table OperationKey Dependency} :
      s.runs.insert? rid row = some runs → s.dependencies.insert? key d = some dependencies →
      d.childId = rid → row.Fresh now → s.runs.get? d.parentId = some parent →
      parent.status = .running → row.depth = parent.depth + 1 →
      (D.childrenLater → ¬Store.createdBefore (rid, row) (d.parentId, parent)) →
      Write D now s { s with runs, dependencies }
  | claimed {s : Store} {rid : RunId} {run : Run} {branch : Branch} {aid : AttemptId}
      {attempt : Attempt} {attempts : Table AttemptId Attempt} {f : Run → Run} :
      s.runs.get? rid = some run → run.status = .queued → run.cancelRequested = false →
      s.branches.get? run.branchId = some branch → branch.activeRunId = some rid →
      s.attempts.insert? aid attempt = some attempts → attempt.runId = rid →
      attempt.fencingToken = run.fencingToken + 1 → attempt.endedAt = none →
      f run = { run with status := .running, attemptId := some aid
                         fencingToken := run.fencingToken + 1, revision := run.revision + 1 } →
      D.scope.takes s.runs run branch.graphThreadKey →
      Write D now s { s with attempts, runs := s.runs.modify rid f }
  | heartbeat {s : Store} {rid : RunId} {run : Run} {aid : AttemptId} {attempt : Attempt}
      (expiry : Time) :
      s.runs.get? rid = some run → (run.status = .running ∨ run.status = .cancelling) →
      run.attemptId = some aid → s.attempts.get? aid = some attempt → now < attempt.leaseExpiry →
      Write D now s { s with
        attempts := s.attempts.modify aid fun a =>
          if a.endedAt = none then { a with leaseExpiry := expiry } else a }
  | attemptEnded {s : Store} {aid : AttemptId} (reason : String) :
      (∃ rid run, s.runs.get? rid = some run ∧ run.attemptId = some aid ∧ run.status ≠ .running ∧
        D.scope.acts rid) →
      Write D now s (s.endAttempt aid reason now)
  | runMoved {s : Store} {rid : RunId} {run : Run} {f : Run → Run} :
      s.runs.get? rid = some run → RunMove D now s rid run (f run) →
      Write D now s { s with runs := s.runs.modify rid f }
  /-- The last unknown operation of a run is reconciled and the run released. -/
  | released {s : Store} {rid : RunId} {run : Run} {oid : OperationId} {o : Operation}
      {patch : OperationPatch} {f : Run → Run} :
      s.runs.get? rid = some run → run.status = .needsReview →
      s.operations.get? oid = some o → o.runId = rid → o.state = .unknown →
      (patch.state = some .succeeded ∨ patch.state = some .prepared) → patch.metadata = none →
      (∀ id o', s.operations.get? id = some o' → o'.runId = rid → o'.state = .unknown → id ≠ oid →
        o'.metadata.unresolvedAccepted = true) →
      (D.wholeBarrier → ∀ id ∈ run.requiredInterrupts, s.Answered id) →
      f run = { run with status := .queued, revision := run.revision + 1 } →
      (patch.state = some .prepared → o.metadata.provenNotStarted = true ∧ D.scope.confirms oid) →
      patch.Records →
      Write D now s { s with
        operations := s.operations.modify oid patch.apply
        reviewResolutions := fun r => if r = rid then MiHarness.reviewed run else s.reviewResolutions r
        runs := s.runs.modify rid f }
  /-- A run ends. -/
  | finished {s : Store} {rid : RunId} {run : Run} {branch : Branch} {status : RunStatus}
      {branches : Table BranchId Branch} {f : Run → Run} (cancelRequested : Bool) (revision : Nat)
      (resultRef : Option ArtifactId) (error : Option ErrorEnvelope) (reason : String) :
      s.runs.get? rid = some run → run.status.terminal = false → status.terminal = true →
      s.branches.get? run.branchId = some branch →
      (branch.activeRunId ≠ some rid ∧ branches = s.branches ∨ branch.activeRunId = some rid ∧
        branches = s.branches.modify run.branchId fun b => { b with activeRunId := none }) →
      (D.resolved → s.OpsResolved rid) → (D.childrenFirst → s.ChildrenEnded rid) →
      f run = { run with status, cancelRequested, resultRef, error, revision } →
      (run.status = .cancelling → status = .cancelled) →
      (run.status ∈ recoverable → D.scope.acts rid ∨ s.AttemptOver run) →
      Write D now s { s with
        branches
        runs := s.runs.modify rid f
        grants := s.grants.mapRows fun id g => g.revoke rid [] id
        interactions := s.interactions.mapRows fun _ i => i.close rid reason
        operations := s.operations.mapRows fun id o => o.close rid now id }
  | interactionAdded {s : Store} {iid : InteractionId} {row : Interaction}
      {interactions : Table InteractionId Interaction} :
      s.interactions.insert? iid row = some interactions → s.Running row.runId →
      row.status = .pendingBinding → row.interruptId = none → row.resolution = none →
      D.scope.asks row.requestKey →
      Write D now s { s with interactions }
  | interactionMoved {s : Store} {iid : InteractionId} {row : Interaction}
      {f : Interaction → Interaction} :
      s.interactions.get? iid = some row → InteractionMove s iid row (f row) →
      D.scope.answers row.runId →
      Write D now s { s with interactions := s.interactions.modify iid f }
  | interactionsClosed {s : Store} (rid : RunId) (reason : String) :
      D.scope.answers rid →
      Write D now s { s with interactions := s.interactions.mapRows fun _ i => i.close rid reason }
  | grantsRevoked {s : Store} (rid : RunId) (except : List GrantId) :
      Write D now s (s.revokeGrants rid except)
  | grantAdded {s : Store} {gid : GrantId} {grant : Grant} {grants : Table GrantId Grant} :
      s.grants.insert? gid grant = some grants → s.Running grant.runId → D.scope.starts →
      Write D now s { s with grants }
  | grantConsumed {s : Store} {gid : GrantId} {grant : Grant} :
      s.grants.get? gid = some grant → s.Running grant.runId → D.scope.starts →
      Write D now s { s with
        grants := s.grants.modify gid fun g =>
          { g with remaining := g.remaining - 1, consumedAt := some now } }
  | operationAdded {s : Store} {oid : OperationId} {row : Operation}
      {operations : Table OperationId Operation} :
      s.operations.insert? oid row = some operations → s.Running row.runId →
      row.state = .prepared → row.metadata = {} →
      (∀ id o, s.operations.get? id = some o → o.key ≠ row.key) → D.scope.registers row →
      Write D now s { s with operations }
  | operationMoved {s : Store} {oid : OperationId} {o : Operation} {patch : OperationPatch} :
      s.operations.get? oid = some o → OperationMove D s oid o patch → patch.Records →
      Write D now s { s with operations := s.operations.modify oid patch.apply }
  | waitAdded {s : Store} {wid : WaitId} {row : Wait} {waits : Table WaitId Wait} :
      s.waits.insert? wid row = some waits → row.interruptId = none → row.resolution = none →
      Write D now s { s with waits }
  | waitMoved {s : Store} {wid : WaitId} {row : Wait} {f : Wait → Wait} :
      s.waits.get? wid = some row → WaitMove wid row (f row) → D.scope.answers row.parentId →
      (D.sourced → (f row).interruptId ≠ row.interruptId → s.Running row.parentId) →
      Write D now s { s with waits := s.waits.modify wid f }

/-- A sequence of writes. -/
def Writes (D : Discipline) (now : Time) : Store → Store → Prop :=
  Relation.ReflTransGen (Write D now)

end MiHarness

import MiHarness.Storage.Store

/-!
# Status transitions

`transition` is the only function that changes the status of a run.  It refuses a change
outside `allowed`.  A change to a terminal status also gives up the branch, revokes the
grants, closes the pending interactions, cancels the operations that have not started and
tells the parent, all in the same transaction.
-/

namespace MiHarness

open Library

/-- `status in TERMINAL`. -/
def RunStatus.terminal : RunStatus → Bool
  | .completed | .failed | .cancelled => true
  | _ => false

/-- `ALLOWED.get(status, set())`. -/
def RunStatus.allowed : RunStatus → List RunStatus
  | .queued => [.running, .cancelled]
  | .running => [.waitingUser, .waitingChildren, .recovering, .needsReview, .completed, .failed,
      .cancelling]
  | .waitingUser => [.queued, .cancelled, .cancelling]
  | .waitingChildren => [.queued, .cancelling]
  | .recovering => [.queued, .needsReview, .cancelling]
  | .needsReview => [.queued, .cancelling]
  | .cancelling => [.cancelled]
  | .completed | .failed | .cancelled => []

def RunStatus.label : RunStatus → String
  | .queued => "queued"
  | .running => "running"
  | .waitingUser => "waiting_user"
  | .waitingChildren => "waiting_children"
  | .recovering => "recovering"
  | .needsReview => "needs_review"
  | .cancelling => "cancelling"
  | .completed => "completed"
  | .failed => "failed"
  | .cancelled => "cancelled"

/-- The type of the event that `transition` records for a new status. -/
def RunStatus.eventType : RunStatus → EventType
  | .queued => .runQueued
  | .running => .runStarted
  | .completed => .runCompleted
  | .failed => .runFailed
  | .cancelled => .runCancelled
  | _ => .runStateChanged

/-- The interaction has not been answered, has not expired and has not been cancelled. -/
def InteractionStatus.pending : InteractionStatus → Bool
  | .pendingBinding | .open => true
  | _ => false

/-- The operation has been registered and has not started. -/
def OpState.unstarted : OpState → Bool
  | .prepared | .authorized => true
  | _ => false

/-- The patch that cancels an interaction. -/
def Interaction.cancelPatch (i : Interaction) (reason : String) : InteractionPatch :=
  { status := some .cancelled
    resolution := some { interruptId := i.interruptId, outcome := .cancelled, reason } }

/-- The result given to an operation that has not started when its run ends. -/
def terminalResult (id : OperationId) (now : Time) : ToolResult :=
  { operationId := id, status := .cancelled, summary := "任务已结束，操作不再继续"
    errorCode := some .runTerminal, completedAt := some now }

/-- The patch that cancels an operation that has not started. -/
def terminalPatch (id : OperationId) (now : Time) : OperationPatch :=
  { state := some .cancelled, result := some (some (terminalResult id now)) }

/-- The row of an interaction after the pending interactions of a run are closed. -/
def Interaction.close (rid : RunId) (reason : String) (i : Interaction) : Interaction :=
  if i.runId = rid ∧ i.status.pending = true then (i.cancelPatch reason).apply i else i

/-- The row of an operation after the unstarted operations of a run are cancelled. -/
def Operation.close (rid : RunId) (now : Time) (id : OperationId) (o : Operation) : Operation :=
  if o.runId = rid ∧ o.state.unstarted = true then (terminalPatch id now).apply o else o

namespace Store

/-- `_event_state`. -/
def eventState (s : Store) (rid : RunId) (run : Run) (type : EventType) (reason : Option String)
    (now : Time) : Store :=
  s.event rid type (.state run.revision run.status reason run.resultRef run.error) now

/-- The loop of `transition` and of `cancel` over the interactions of a run: each pending
one is cancelled and an event recorded. -/
def cancelInteractions (s : Store) (rid : RunId) (reason : String) (now : Time) : Store :=
  let open' := s.interactions.select fun _ i => i.runId = rid && i.status.pending
  let s := { s with interactions := s.interactions.mapRows fun _ i => i.close rid reason }
  open'.foldl (fun s e =>
    s.event rid .interactionResolved (.resolved e.1 (e.2.revision + 1) .cancelled) now) s

/-- `used` of `transition`: what a reservation of an operation that has not started is
settled at. -/
def unstartedUse (tool : ToolId) : Amount :=
  Amount.single .toolCalls (if tool = .requestInput ∨ tool = .waitChildren then 1 else 0)

/-- The loop of `transition` over the operations of a run: each unstarted one is cancelled,
its reservation settled and an event recorded. -/
def cancelOperations (s : Store) (rid : RunId) (now : Time) : Except HarnessError Store := do
  let unstarted := s.operations.select fun _ o => o.runId = rid && o.state.unstarted
  let ledger ← unstarted.foldlM (fun (ledger : Ledger) e =>
    if (ledger.reservations.get? (.tool e.1)).isSome then
      ledger.settle (.tool e.1) (some (unstartedUse e.2.toolId))
    else .ok ledger) s.ledger
  let s := { s with ledger, operations := s.operations.mapRows fun id o => o.close rid now id }
  .ok (unstarted.foldl (fun s e => s.event rid .toolCompleted
    (.tool e.1 e.2.toolId e.2.toolRevision (some .cancelled) (some (terminalResult e.1 now).summary))
    now) s)

/-- The branch of `transition` for a terminal status. -/
def finishRun (s : Store) (rid : RunId) (updated : Run) (now : Time) :
    Except HarnessError Store := do
  let branch ← s.branch updated.branchId
  let s ← if branch.activeRunId = some rid then
      s.setBranchOwner updated.branchId (some rid) none
    else .ok s
  let s := s.revokeGrants rid []
  let s := s.cancelInteractions rid "run_terminal" now
  let s ← s.cancelOperations rid now
  match updated.parentRunId with
  | none => .ok s
  | some parent =>
      .ok ((s.notifyParent rid parent).event parent .childCompleted
        (.child rid updated.input updated.status updated.resultRef) now)

end Store

def invalidTransition (old new : RunStatus) : HarnessError :=
  { code := .invalidTransition, message := "不允许从 " ++ old.label ++ " 转为 " ++ new.label }

/-- `Scheduler.transition` of the run as the transaction has it. -/
def transition (s : Store) (rid : RunId) (status : RunStatus) (ctx : Option ExecutionContext)
    (reason : Option String) (extra : RunPatch) (now : Time) : Except HarnessError Store := do
  let run ← s.run rid
  require (status ∈ run.status.allowed) (invalidTransition run.status status)
  let s ← s.updateRun rid run.revision { extra with status := some status } ctx now
  let updated ← s.run rid
  let s ← if status.terminal = true then s.finishRun rid updated now else .ok s
  .ok (s.eventState rid updated status.eventType reason now)

end MiHarness

import MiHarness.Library.Worklist
import MiHarness.Scheduler.Barrier

/-!
# Cancellation

`cancel` walks the tree of a run and, for every run that has not ended, raises its
cancellation flag, revokes its grants and closes its interactions.  A run that nobody
executes is cancelled at once; any other run enters `cancelling` and is cancelled by its
worker or by `finishIdle`, once nothing of it is unresolved and its children have ended.
-/

namespace MiHarness

open Library

/-- `descendants` of `cancel`: the run and everything it delegated, breadth first. -/
def Store.descendantIds (s : Store) (rid : RunId) : List RunId :=
  worklist s.childIds (s.dependencies.rows.length + 1) [rid]

/-- The rows of `descendants`. -/
def Store.descendants (s : Store) (rid : RunId) : List (RunId × Run) :=
  (s.descendantIds rid).filterMap fun id => (s.runs.get? id).map fun r => (id, r)

/-- Some operation of the run has started and its outcome is not known. -/
def Store.started (s : Store) (rid : RunId) : Bool :=
  s.operations.any fun _ o => o.runId = rid && decide (o.state = .running ∨ o.state = .unknown)

/-- The condition under which `cancel` ends a run at once. -/
def Store.cancellable (s : Store) (rid : RunId) (status : RunStatus) : Bool :=
  status = .queued ||
    status = .waitingUser && (s.children rid).isEmpty && !s.started rid

/-- The body of the loop of `cancel`. -/
def cancelRun (s : Store) (reason : String) (rid : RunId) (run : Run) (now : Time) :
    Except HarnessError Store :=
  if run.status.terminal = true then .ok s
  else do
    let s ← s.updateRun rid run.revision { cancelRequested := some true } none now
    let s := (s.revokeGrants rid []).cancelInteractions rid reason now
    if s.cancellable rid run.status = true then
      transition s rid .cancelled none (some reason) {} now
    else if run.status ≠ .cancelling then
      transition s rid .cancelling none (some reason) {} now
    else .ok s

/-- The transaction of `Scheduler.cancel`. -/
def cancel (s : Store) (owner : OwnerId) (rid : RunId) (reason : String) (now : Time) :
    Except HarnessError Store := do
  let _ ← s.ownedRun rid owner
  (s.descendants rid).foldlM (fun s e => cancelRun s reason e.1 e.2 now) s

/-- The body of the loop of `finish_idle_cancellations`. -/
def finishIdleRun (s : Store) (rid : RunId) (run : Run) (now : Time) : Except HarnessError Store :=
  if (run.attemptId.bind s.attempts.get?).any (fun attempt => attempt.endedAt = none) = true then
    .ok s
  else if s.unresolved rid = false ∧ s.childrenTerminal rid = true then
    transition s rid .cancelled none (some "取消屏障已满足") {} now
  else .ok s

/-- `Scheduler.finish_idle_cancellations`. -/
def finishIdle (s : Store) (now : Time) : Except HarnessError Store :=
  (s.runsWith [.cancelling]).reverse.foldlM (fun s e => finishIdleRun s e.1 e.2 now) s

end MiHarness

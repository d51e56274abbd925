import MiHarness.Library.System
import MiHarness.Scheduler.Recovery
import MiHarness.Tools.Operations

/-!
# The system of scheduler transactions

A state of the system is the database and the clock.  A step is one transaction of the
scheduler, of the gateway or of an executor, with any arguments, or the passing of time.  A
transaction that refuses changes nothing and is no step.  `cancel`, `reconcile` and `recover`
are several transactions in the source: `finishIdle` is a step of its own, and so is the turn
of `recover` for one run.
-/

namespace MiHarness

open Library

structure World where
  store : Store
  now : Time

/-- The transactions, with their arguments. -/
inductive Action where
  | tick (now : Time)
  | addBranch (fresh : BranchId) (row : Branch)
  | setMaintenance (enabled : Bool)
  | submit (owner : OwnerId) (session : SessionId) (request : Submission) (fresh : RunId)
  | claim (process : ProcessId) (fresh : AttemptId)
  | heartbeat (ctx : ExecutionContext)
  | delegate (ctx : ExecutionContext) (key : OperationKey) (request : DelegateRequest)
      (allowed : List String) (ids : DelegateIds)
  | prepareWait (ctx : ExecutionContext) (key : OperationId) (children : List RunId)
      (mode : WaitMode) (fresh : WaitId)
  | steer (owner : OwnerId) (rid : RunId) (text : String) (expected : Nat) (fresh : CommandId)
  | ackInputCommands (ctx : ExecutionContext) (ids : List CommandId)
  | refreshWaits
  | respond (owner : OwnerId) (iid : InteractionId) (request : RespondRequest)
  | expireInteractions
  | settle (machine : Machine) (ctx : ExecutionContext) (outcome : RuntimeOutcome)
  | cancel (owner : OwnerId) (rid : RunId) (reason : String)
  | finishIdle
  | recoverRun (machine : Machine) (rid : RunId)
  | reconcile (machine : Machine) (owner : OwnerId) (oid : OperationId) (request : ReconcileRequest)
  | prepareOperation (ctx : ExecutionContext) (row : Store.PreparedRow) (fresh : OperationId)
  | finishOperation (ctx : ExecutionContext) (oid : OperationId) (result : ToolResult)
  | startOperation (ctx : ExecutionContext) (oid : OperationId) (o : Operation) (grant : GrantId)
      (binding : ApprovalBinding) (policyRevision : Nat)
  | annotateOperation (ctx : ExecutionContext) (oid : OperationId) (a : Annotation)
  | suspendExchange (ctx : ExecutionContext) (oid : OperationId) (o : Operation)
      (pending : PendingInput) (fresh : InteractionId)
  | sendExchange (ctx : ExecutionContext) (oid : OperationId) (o : Operation) (c : Continuation)
  | prepareInteraction (ctx : ExecutionContext) (request : Store.InteractionRequest)
      (fresh : InteractionId)
  | reserve (account : RunId) (key : ReservationKey) (items : Items)
  | settleReservation (key : ReservationKey) (actual : Option Amount)

/-- Run the transaction of an action. -/
def Action.perform (host : Host) (s : Store) (now : Time) : Action → Except HarnessError Store
  | .tick _ => .ok s
  | .addBranch fresh row => s.addBranch fresh { row with activeRunId := none }
  | .setMaintenance enabled => .ok { s with maintenance := enabled }
  | .submit owner session request fresh => MiHarness.submit s owner session request fresh now
  | .claim process fresh => do
      let (_, s) ← MiHarness.claim host s process fresh now
      .ok s
  | .heartbeat ctx => MiHarness.heartbeat host s ctx now
  | .delegate ctx key request allowed ids => do
      let (_, s) ← MiHarness.delegate host s ctx key request allowed ids now
      .ok s
  | .prepareWait ctx key children mode fresh => do
      let (_, _, s) ← MiHarness.prepareWait s ctx key children mode fresh
      .ok s
  | .steer owner rid text expected fresh => MiHarness.steer s owner rid text expected fresh
  | .ackInputCommands ctx ids => s.ackInputCommands ctx ids now
  | .refreshWaits => MiHarness.refreshWaits s now
  | .respond owner iid request => MiHarness.respond host s owner iid request now
  | .expireInteractions => MiHarness.expireInteractions s now
  | .settle machine ctx outcome => MiHarness.settle s machine.readable ctx outcome now
  | .cancel owner rid reason => MiHarness.cancel s owner rid reason now
  | .finishIdle => MiHarness.finishIdle s now
  | .recoverRun machine rid => do
      let listed ← s.run rid
      if listed.status ∈ recoverable then MiHarness.recoverRun host machine s rid listed now
      else .ok s
  | .reconcile machine owner oid request => MiHarness.reconcile machine s owner oid request now
  | .prepareOperation ctx row fresh => do
      let (_, _, s) ← s.prepareOperation ctx row fresh now
      .ok s
  | .finishOperation ctx oid result => MiHarness.finishOperation s ctx oid result now
  | .startOperation ctx oid o grant binding policyRevision =>
      MiHarness.startOperation s ctx oid o grant binding policyRevision now
  | .annotateOperation ctx oid a => MiHarness.annotateOperation s ctx oid a now
  | .suspendExchange ctx oid o pending fresh => do
      let (_, s) ← MiHarness.suspendExchange s ctx oid o pending fresh now
      .ok s
  | .sendExchange ctx oid o c => MiHarness.sendExchange s ctx oid o c now
  | .prepareInteraction ctx request fresh => do
      let (_, _, s) ← s.prepareInteraction ctx request fresh now
      .ok s
  | .reserve account key items => do
      let ledger ← s.ledger.reserve account key items
      .ok { s with ledger }
  | .settleReservation key actual => do
      let ledger ← s.ledger.settle key actual
      .ok { s with ledger }

/-- The interrupts of an outcome are those the middleware raised: a review names an operation
of the run, since it comes from the wait that `execute` returns for its own operation. -/
def Store.ownReviews (s : Store) (ctx : ExecutionContext) (outcome : RuntimeOutcome) : Bool :=
  outcome.interruptRefs.all fun ref =>
    match ref.interruptId.request with
    | .review oid => (s.operations.get? oid).all fun o => o.runId = ctx.runId
    | _ => true

/-- The gateway and the executors touch operations of their own run only: an operation is found
by a key that names the run. -/
def Store.ownOperation (s : Store) (ctx : ExecutionContext) (oid : OperationId) : Bool :=
  (s.operations.get? oid).all fun o => o.runId = ctx.runId

/-- A row that the code has kept in memory is a row it has read.  Every update raises the
revision, so at an equal revision it is the row as it stands. -/
def Store.readBefore (s : Store) (oid : OperationId) (o : Operation) : Bool :=
  (s.operations.get? oid).all fun current => o.revision = current.revision → o = current

/-- What the callers of the transactions guarantee. -/
def Action.admissible (s : Store) : Action → Bool
  | .settle _ ctx outcome => s.ownReviews ctx outcome
  | .finishOperation ctx oid _ | .annotateOperation ctx oid _ => s.ownOperation ctx oid
  | .startOperation ctx oid o _ _ _ | .suspendExchange ctx oid o _ _ | .sendExchange ctx oid o _ =>
      s.ownOperation ctx oid && s.readBefore oid o
  | _ => true

/-- The state after an action, if it is one the system can take. -/
def World.next (host : Host) (w : World) (a : Action) : Option World :=
  match a with
  | .tick now => if w.now ≤ now then some { w with now } else none
  | a =>
      if a.admissible w.store = true then
        match a.perform host w.store w.now with
        | .ok store => some { w with store }
        | .error _ => none
      else none

/-- The system of transactions of an installation. -/
def system (host : Host) : System World Action :=
  .ofNext (fun w => w.store = .initial) (World.next host)

/-! ## A small installation -/

namespace Sample

/-- A registry in which every tool has outside effects. -/
def host : Host where
  contentHash text := text
  registry id version := some { id, version, effect := .externalWrite, resumable := true }
  validates _ _ := true

/-- A process that has prepared run `10` has registered the tools of its snapshot. -/
def prepared : Registered := fun _ _ => true

/-- A machine on which every process has exited and every artifact is readable. -/
def machine : Machine where
  alive _ := false
  reap _ := none
  fileDigest _ := none
  readable _ _ := true
  registered := prepared

def start : World := ⟨.initial, 0⟩

/-- A user adds a branch and submits run `10` on it. -/
def submitted : List Action :=
  [.addBranch 1 { sessionId := 1, graphThreadKey := 5 },
    .submit 1 1 ⟨1, 1, 1, 1, "goal", ∅, 1000000⟩ 10]

/-- The context of run `10`. -/
def context (attempt : AttemptId) (token : Nat) : ExecutionContext :=
  { ownerId := 1, workspaceId := 1, sessionId := 1, branchId := 1, runId := 10, rootRunId := 10
    parentRunId := none, workerAttemptId := attempt, fencingToken := token, graphThreadKey := 5
    inputRevision := 2, configSnapshotId := 1, deadlineAt := some 1000000 }

/-- The outcome of an attempt that has completed run `10`. -/
def final : RuntimeOutcome :=
  { kind := .final, runId := 10, inputRevision := 2, checkpointRef := some ⟨5, 1, .langchainV1⟩
    resultRef := some 1 }

theorem reachable {actions : List Action} {w : World}
    (h : System.runs (World.next host) start actions = some w) : (system host).Reachable w :=
  have init : (system host).Reachable start := .init (show start.store = .initial from rfl)
  System.Reachable.runs init h

theorem reachableWithin {C : World → Action → Prop} {actions : List Action} {w : World}
    (within : ∀ a ∈ actions, ∀ w, C w a)
    (h : System.runs (World.next host) start actions = some w) :
    ((system host).restrict C).Reachable w :=
  have init : ((system host).restrict C).Reachable start :=
    .init (show start.store = .initial from rfl)
  System.Reachable.runsWithin within init h

end Sample

end MiHarness

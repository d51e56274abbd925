import MiHarness.Scheduler.Cancel

/-!
# Recovery and reconciliation

`recover` takes a run away from an attempt whose lease has expired.  Once the process is
gone it decides every operation that was running: an exchange that awaits the user stays, a
verified file write has succeeded, a read starts again, and everything else is unknown.  A
run with an unknown operation waits in `needs_review` until `reconcile` has recorded what the
user found out.
-/

namespace MiHarness

open Library

/-- What recovery and reconciliation read of the machine and of their own process. -/
structure Machine where
  /-- `psutil`: the process exists, with that start. -/
  alive : ProcessId → Bool
  /-- What `processes.recover_run` raises. -/
  reap : RunId → Option HarnessError
  /-- The digest of a file, if the path is one. -/
  fileDigest : String → Option Hash
  /-- `artifacts.path` finds the artifact. -/
  readable : ArtifactId → OwnerId → Bool
  /-- The tools that the process that recovers has registered. -/
  registered : Registered

/-! ## Recovery -/

/-- A saved exchange with a server that awaits the user and can be resumed. -/
def Operation.awaitsInput (o : Operation) : Option InteractionId :=
  match o.metadata.protocolContinuation with
  | some c =>
      if o.state = .running ∧ c.modernMrtr = true ∧ c.status = .awaitingInput ∧
          c.requestStateRef.isSome ∧ c.schemaHash.isSome ∧ c.requestHash.isSome then
        c.interactionId
      else none
  | none => none

/-- The operation is in the set `continuations` of `recover`. -/
def Store.continuation (s : Store) (rid : RunId) (id : OperationId) (o : Operation) : Bool :=
  (o.awaitsInput.bind s.interactions.get?).any fun i => i.runId = rid && i.operationId = some id

/-- `continuations` of `recover`. -/
def Store.continuations (s : Store) (rid : RunId) : List (OperationId × Operation) :=
  (s.operationsOf rid).filter fun e => s.continuation rid e.1 e.2

/-- The file an interrupted write was to leave is there: the digest of the target is the
hash recorded before the write. -/
def Machine.verifiesWrite (machine : Machine) (o : Operation) : Bool :=
  decide (o.toolId = .writeFile ∨ o.toolId = .applyPatch) &&
    (o.metadata.path.bind machine.fileDigest).any fun digest =>
      decide (o.metadata.afterHash = some digest)

/-- The result recovery gives a write it has verified.  `path` of the arguments and the digest
are in the metadata of the operation. -/
def verifiedResult (id : OperationId) (now : Time) : ToolResult :=
  { operationId := id, status := .succeeded, summary := "文件目标 hash 已验证，已完成写入"
    completedAt := some now }

/-- The body of the loop of `recover` over the operations, with the flag `unknown`. -/
def recoverOperation (host : Host) (machine : Machine) (continuations : List OperationId)
    (acc : Bool × Store) (id : OperationId) (o : Operation) (now : Time) :
    Except HarnessError (Bool × Store) :=
  let (unknown, s) := acc
  let lose := do
    let s ← s.updateOperation id o.revision { state := some .unknown } none now
    .ok (true, s)
  if o.state ≠ .running then .ok (unknown || o.state = .unknown, s)
  else if id ∈ continuations then .ok (unknown, s)
  else if o.metadata.protocolContinuation.isSome then lose
  else if machine.verifiesWrite o = true then do
    let s ← s.updateOperation id o.revision
      { state := some .succeeded, result := some (some (verifiedResult id now)) } none now
    .ok (unknown, s)
  else do
    let spec ← host.tool machine.registered o.toolId o.toolRevision
    if spec.effect = .read then
      let s ← s.updateOperation id o.revision { state := some .prepared, grantId := some none }
        none now
      .ok (unknown, s)
    else lose

/-- The first write of `recover`: a running run has lost its attempt. -/
def markLost (s : Store) (rid : RunId) (run : Run) (now : Time) : Except HarnessError Store :=
  if run.status = .running then
    transition s rid .recovering none (some "执行租约失联") {} now
  else .ok s

/-- The last write of `recover`: a recovering run goes on, or waits for a review. -/
def releaseLost (s : Store) (rid : RunId) (unknown : Bool) (now : Time) :
    Except HarnessError Store := do
  let run ← s.run rid
  if run.status = .recovering then
    if unknown = true then transition s rid .needsReview none (some "未知副作用需要核对") {} now
    else transition s rid .queued none (some "旧执行者退出，允许从持久位置恢复") {} now
  else .ok s

/-- The part of `recover` for a process that has exited. -/
def settleLost (host : Host) (machine : Machine) (s : Store) (rid : RunId) (aid : AttemptId)
    (continuations : List OperationId) (now : Time) : Except HarnessError Store := do
  let s := s.endAttempt aid "worker_lost" now
  let (unknown, s) ← (s.operationsOf rid).foldlM (fun acc e =>
    recoverOperation host machine continuations acc e.1 e.2 now) (false, s)
  releaseLost s rid unknown now

/-- The transaction of `recover` for a run and the attempt it was listed with, given whether
the process of the attempt is alive. -/
def recoverAttempt (host : Host) (machine : Machine) (s : Store) (rid : RunId) (aid : AttemptId)
    (alive : Bool) (now : Time) : Except HarnessError Store := do
  let run ← s.run rid
  if run.attemptId ≠ some aid then .ok s
  else
    let s ← markLost s rid run now
    let continuations := s.continuations rid
    let s := s.revokeGrants rid (continuations.filterMap fun e => e.2.grantId)
    if alive = true then .ok s
    else settleLost host machine s rid aid (continuations.map Prod.fst) now

/-- What `recover_run` raises, called only once the process is gone. -/
def Machine.reapError (machine : Machine) (rid : RunId) (alive : Bool) : Option HarnessError :=
  if alive = true then none else machine.reap rid

/-- The body of the loop of `recover`, for a run as it was listed. -/
def recoverRun (host : Host) (machine : Machine) (s : Store) (rid : RunId) (listed : Run)
    (now : Time) : Except HarnessError Store :=
  match listed.attemptId with
  | none => .ok s
  | some aid =>
      match s.attempts.get? aid with
      | none => .ok s
      | some attempt =>
          if now < attempt.leaseExpiry then .ok s
          else
            let alive := machine.alive attempt.process
            match machine.reapError rid alive with
            | some e => .error e
            | none => recoverAttempt host machine s rid aid alive now

/-- The statuses `recover` looks at. -/
def recoverable : List RunStatus := [.running, .recovering, .cancelling]

/-- `Scheduler.recover`, up to the final `finish_idle_cancellations`. -/
def recover (host : Host) (machine : Machine) (s : Store) (now : Time) :
    Except HarnessError Store :=
  (s.runsWith recoverable).foldlM (fun s e => recoverRun host machine s e.1 e.2 now) s

/-! ## Reconciliation -/

inductive ReconcileDecision where
  | confirmCompleted | confirmNotExecuted | acceptUnresolved
deriving DecidableEq, Repr

inductive AllowedAction where
  | resume | endWithoutSuccess
deriving DecidableEq, Repr

structure ReconcileRequest where
  expectedRevision : Nat
  decision : ReconcileDecision
  /-- The note without surrounding blanks. -/
  note : String
  evidenceRefs : List ArtifactId := []
  resultRef : Option ArtifactId := none

/-- The patch with which a user accepts that an operation stays unknown. -/
def Operation.acceptPatch (o : Operation) (actor : OwnerId) : OperationPatch :=
  { metadata := some { o.metadata with unresolvedAccepted := true, acceptedBy := some actor } }

/-- The patch and the permission that a decision gives. -/
def reconcilePatch (machine : Machine) (id : OperationId) (o : Operation) (actor : OwnerId)
    (request : ReconcileRequest) (now : Time) :
    Except HarnessError (OperationPatch × AllowedAction) :=
  match request.decision with
  | .confirmCompleted => do
      let noEvidence : HarnessError :=
        { code := .evidenceRequired, message := "确认完成须提供可读取结果和关联证据", status := 422 }
      let result ← orThrow request.resultRef noEvidence
      require (request.evidenceRefs ≠ []) noEvidence
      require (machine.readable result actor = true) (Store.notFound "产物不存在")
      let result : ToolResult :=
        { operationId := id, status := .succeeded, summary := request.note
          completedAt := some now }
      .ok ({ state := some .succeeded, result := some (some result) }, .resume)
  | .confirmNotExecuted => do
      require (o.metadata.provenNotStarted = true)
        { code := .unverifiableNonExecution
          message := "当前执行器没有可验证的未执行证据，不能仅凭缺少结果重新执行", status := 422 }
      .ok ({ state := some .prepared, result := some none, grantId := some none }, .resume)
  | .acceptUnresolved => .ok (o.acceptPatch actor, .endWithoutSuccess)

/-- `ToolGateway.reconcile`. -/
def reconcileOperation (machine : Machine) (s : Store) (id : OperationId) (actor : OwnerId)
    (request : ReconcileRequest) (now : Time) : Except HarnessError (AllowedAction × Store) := do
  let o ← s.operation id
  let _ ← s.ownedRun o.runId actor
  require (o.revision = request.expectedRevision ∧ o.state = .unknown)
    (Store.conflict "操作已更新或无需核对")
  require (request.note ≠ "")
    { code := .evidenceRequired, message := "核对必须记录依据", status := 422 }
  require (∀ ref ∈ request.evidenceRefs, machine.readable ref actor = true)
    (Store.notFound "产物不存在")
  let (patch, permitted) ← reconcilePatch machine id o actor request now
  let s ← s.updateOperation id o.revision patch none now
  .ok (permitted, s.revokeGrants o.runId [])

/-- Some operation of the run is unknown and not accepted. -/
def Store.undecided (s : Store) (rid : RunId) : Bool :=
  s.operations.any fun _ o =>
    o.runId = rid && decide (o.state = .unknown) && !o.metadata.unresolvedAccepted

/-- The record `review_resolutions` that `reconcile` writes for every required interrupt. -/
def reviewed (run : Run) : List (InterruptId × Resolution) :=
  run.requiredInterrupts.map fun id =>
    (id, { interruptId := some id, outcome := .answered, reason := "operation_reconciled" })

/-- The transaction of `Scheduler.reconcile`. -/
def reconcile (machine : Machine) (s : Store) (owner : OwnerId) (id : OperationId)
    (request : ReconcileRequest) (now : Time) : Except HarnessError Store := do
  let o ← s.operation id
  let run ← s.ownedRun o.runId owner
  require (run.status = .needsReview ∨ run.status = .cancelling)
    { code := .runNotReviewing, message := "任务未处于可核对状态" }
  let (permitted, s) ← reconcileOperation machine s id owner request now
  if s.undecided o.runId = false ∧ permitted = .resume ∧ run.status = .needsReview then
    let s := { s with reviewResolutions := fun rid =>
      if rid = o.runId then reviewed run else s.reviewResolutions rid }
    transition s o.runId .queued none (some "已记录可恢复核对结论") {} now
  else if permitted = .endWithoutSuccess ∧ run.status = .needsReview then
    transition s o.runId .cancelling none (some "用户接受未决后果并停止任务")
      { cancelRequested := some true } now
  else .ok s

end MiHarness

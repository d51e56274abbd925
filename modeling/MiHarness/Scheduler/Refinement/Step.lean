import MiHarness.Scheduler.Refinement.Cancel
import MiHarness.Scheduler.Refinement.Claim
import MiHarness.Scheduler.Refinement.Recovery
import MiHarness.Scheduler.System

/-!
# The system refines the row protocol

The writes of the gateway and of the executors, and the theorem that puts all transactions
together: a step of the system is a sequence of writes, under the disciplines whose conditions
the step meets.
-/

namespace MiHarness

open Library

variable {D : Discipline} {now : Time} {s s' : Store}

/-! ## Operations -/

theorem Store.assertFence?_some {ctx : ExecutionContext} {u : Unit}
    (h : s.assertFence? (some ctx) now = .ok u) : s.Live ctx.runId :=
  .of_fence h

theorem Store.operationByKey_eq_none {key : OperationKey} (h : s.operationByKey key = none) :
    ∀ id o, s.operations.get? id = some o → o.key ≠ key := by
  rintro id o ho rfl
  have absent := List.find?_eq_none.mp h (id, o) (Table.mem_rows.mpr ho)
  exact absent (by simp [Operation.key])

theorem prepareOperation_writes {ctx : ExecutionContext} {row : Store.PreparedRow}
    {fresh oid : OperationId} {o : Operation} (registers : ∀ o, D.scope.registers o)
    (h : s.prepareOperation ctx row fresh now = .ok (oid, o, s')) : Writes D now s s' := by
  obtain ⟨fence, ⟨-, rfl, -⟩ | ⟨unused, rfl, rfl, operations, hinsert, rfl⟩⟩ :=
    Store.prepareOperation_eq_ok h
  · exact .refl
  · exact (Write.operationAdded hinsert (.of_fence fence) rfl rfl
      (Store.operationByKey_eq_none unused) (registers _)).writes.then (.event _ _ _ _)

theorem prepareInteraction_writes {ctx : ExecutionContext} {request : Store.InteractionRequest}
    {fresh iid : InteractionId} {i : Interaction} (asks : D.scope.asks request.key)
    (h : s.prepareInteraction ctx request fresh now = .ok (iid, i, s')) : Writes D now s s' := by
  obtain ⟨fence, ⟨-, -, -, rfl⟩ | ⟨-, rfl, rfl, interactions, hinsert, rfl⟩⟩ :=
    Store.prepareInteraction_eq_ok h
  · exact .refl
  · exact (Write.interactionAdded hinsert (.of_fence fence) rfl rfl rfl asks).writes

/-- Preparing an interaction leaves the runs and the operations alone. -/
theorem prepareInteraction_frame {ctx : ExecutionContext} {request : Store.InteractionRequest}
    {fresh iid : InteractionId} {i : Interaction}
    (h : s.prepareInteraction ctx request fresh now = .ok (iid, i, s')) :
    ∃ interactions, s' = { s with interactions } := by
  obtain ⟨-, ⟨-, -, -, rfl⟩ | ⟨-, rfl, rfl, interactions, -, rfl⟩⟩ :=
    Store.prepareInteraction_eq_ok h
  · exact ⟨s'.interactions, rfl⟩
  · exact ⟨interactions, rfl⟩

theorem Store.ownOperation_eq_true {ctx : ExecutionContext} {oid : OperationId}
    (own : s.ownOperation ctx oid = true) {o : Operation} (ho : s.operations.get? oid = some o) :
    o.runId = ctx.runId := by
  simpa [ownOperation, ho] using own

theorem Store.readBefore_eq_true {oid : OperationId} {o current : Operation}
    (read : s.readBefore oid o = true) (ho : s.operations.get? oid = some current)
    (same : current.revision = o.revision) : o = current := by
  simp only [readBefore, ho, Option.all_some, decide_eq_true_eq] at read
  exact read same.symm

theorem finishOperation_writes {ctx : ExecutionContext} {oid : OperationId} {result : ToolResult}
    (own : s.ownOperation ctx oid = true) (acts : D.scope.acts ctx.runId)
    (h : finishOperation s ctx oid result now = .ok s') : Writes D now s s' := by
  simp only [finishOperation, bind_eq_ok, Store.operation_eq_ok] at h
  obtain ⟨o, ho, t, hupdate, h⟩ := h
  obtain ⟨fence, -, rfl⟩ := Store.updateOperation_eq_ok hupdate
  cases h
  have owner := Store.ownOperation_eq_true own ho
  refine (Write.operationMoved ho
    (.stepped (owner ▸ Store.assertFence?_some fence) ?_ ?_ rfl (owner ▸ acts) (.inl rfl))
    (.closed rfl rfl)).writes.then (.event _ _ _ _)
  · rintro ⟨state, hstate, starts⟩
    cases hstate
    rcases starts with e | e <;> revert e <;> cases result.status <;> simp [ResultStatus.opState]
  · cases result.status <;> simp [ResultStatus.opState]

/-- An executor's own change of the metadata of an operation. -/
theorem operationNoted_writes {ctx : ExecutionContext} {oid : OperationId} {o : Operation}
    {metadata : Metadata} {expected : Nat} (ho : s.operations.get? oid = some o)
    (owner : o.runId = ctx.runId) (acts : D.scope.acts ctx.runId)
    (h : s.updateOperation oid expected { metadata := some metadata } (some ctx) now = .ok s')
    (same : metadata.unresolvedAccepted = o.metadata.unresolvedAccepted)
    (exchange : metadata.protocolContinuation = o.metadata.protocolContinuation ∨
      D.scope.exchanges) : Writes D now s s' := by
  obtain ⟨fence, -, rfl⟩ := Store.updateOperation_eq_ok h
  refine Write.writes (.operationMoved ho
    (.stepped (owner ▸ Store.assertFence?_some fence) ?_ ?_ same (owner ▸ acts) exchange) (.noted rfl rfl))
  · rintro ⟨state, hstate, -⟩
    cases hstate
  · simp

theorem annotateOperation_writes {ctx : ExecutionContext} {oid : OperationId} {a : Annotation}
    (own : s.ownOperation ctx oid = true) (acts : D.scope.acts ctx.runId)
    (h : annotateOperation s ctx oid a now = .ok s') : Writes D now s s' := by
  simp only [annotateOperation, bind_eq_ok, Store.operation_eq_ok] at h
  obtain ⟨o, ho, hupdate⟩ := h
  refine operationNoted_writes ho (Store.ownOperation_eq_true own ho) acts hupdate ?_ (.inl ?_)
  · cases a <;> rfl
  · cases a <;> rfl

theorem suspendExchange_writes {ctx : ExecutionContext} {oid : OperationId} {o : Operation}
    {pending : PendingInput} {fresh iid : InteractionId} (own : s.ownOperation ctx oid = true)
    (acts : D.scope.acts ctx.runId) (exchanges : D.scope.exchanges)
    (asks : ∀ round hash, D.scope.asks (.mcp oid round hash))
    (h : suspendExchange s ctx oid o pending fresh now = .ok (iid, s')) : Writes D now s s' := by
  simp only [suspendExchange, bind_eq_ok, require_eq_ok, Store.operation_eq_ok, exists_const] at h
  obtain ⟨-, current, hcurrent, -, ⟨iid', i, t⟩, hprepare, u, hupdate, h⟩ := h
  cases h
  obtain ⟨interactions, rfl⟩ := prepareInteraction_frame hprepare
  exact (prepareInteraction_writes (asks _ _) hprepare).trans
    (operationNoted_writes hcurrent (Store.ownOperation_eq_true own hcurrent) acts hupdate rfl
      (.inr exchanges))

theorem sendExchange_writes {ctx : ExecutionContext} {oid : OperationId} {o : Operation}
    {c : Continuation} (own : s.ownOperation ctx oid = true) (acts : D.scope.acts ctx.runId)
    (exchanges : D.scope.exchanges) (read : s.readBefore oid o = true)
    (h : sendExchange s ctx oid o c now = .ok s') : Writes D now s s' := by
  simp only [sendExchange, bind_eq_ok, require_eq_ok, Store.operation_eq_ok, exists_const] at h
  obtain ⟨current, hcurrent, same, hupdate⟩ := h
  cases Store.readBefore_eq_true read hcurrent same
  exact operationNoted_writes hcurrent (Store.ownOperation_eq_true own hcurrent) acts hupdate rfl
    (.inr exchanges)

theorem startOperation_eq_ok {ctx : ExecutionContext} {oid : OperationId} {o : Operation}
    {gid : GrantId} {binding : ApprovalBinding} {policyRevision : Nat}
    (h : startOperation s ctx oid o gid binding policyRevision now = .ok s') :
    ∃ current grants ledger, s.operations.get? oid = some current ∧
      current.revision = o.revision ∧ s.assertFence ctx now = .ok () ∧
      s.grants.insert? gid
        { operationId := oid, ownerId := ctx.ownerId, runId := ctx.runId, binding } = some grants ∧
      now < binding.expiresAt ∧ binding.policyRevision = policyRevision ∧
      s' = { s with
        grants := grants.modify gid fun g =>
          { g with remaining := g.remaining - 1, consumedAt := some now }
        operations := (s.operations.modify oid (OperationPatch.apply { state := some .authorized })
          ).modify oid (Store.startPatch ctx gid).apply
        ledger }.event ctx.runId .toolStarted (.tool oid o.toolId o.toolRevision none none) now := by
  simp only [startOperation, bind_eq_ok] at h
  obtain ⟨t, hgrant, u, hupdate, v, hconsume, ledger, -, h⟩ := h
  obtain ⟨grants, hinsert, rfl⟩ := Store.addGrant_eq_ok hgrant
  obtain ⟨-, ⟨current, hcurrent, same⟩, rfl⟩ := Store.updateOperation_eq_ok hupdate
  obtain ⟨fence, grant, o', hget, -, ⟨-, fresh, policy⟩, -, -, rfl⟩ :=
    Store.consumeGrant_eq_ok hconsume
  cases h
  have new : grants.get? gid =
      some { operationId := oid, ownerId := ctx.ownerId, runId := ctx.runId, binding } := by
    rw [(Table.insert?_eq_some hinsert).2, if_pos rfl]
  cases new.symm.trans hget
  exact ⟨current, grants, ledger, hcurrent, same, fence, hinsert, fresh, policy, rfl⟩

theorem startOperation_writes {ctx : ExecutionContext} {oid : OperationId} {o : Operation}
    {gid : GrantId} {binding : ApprovalBinding} {policyRevision : Nat}
    (own : s.ownOperation ctx oid = true) (acts : D.scope.acts ctx.runId) (starts : D.scope.starts)
    (h : startOperation s ctx oid o gid binding policyRevision now = .ok s') : Writes D now s s' := by
  obtain ⟨current, grants, ledger, hcurrent, -, fence, hinsert, -, -, rfl⟩ := startOperation_eq_ok h
  have running : s.Running ctx.runId := .of_fence fence
  have owner := Store.ownOperation_eq_true own hcurrent
  have live : s.Live current.runId := owner ▸ .of_fence fence
  have granted : grants.get? gid =
      some { operationId := oid, ownerId := ctx.ownerId, runId := ctx.runId, binding } := by
    rw [(Table.insert?_eq_some hinsert).2, if_pos rfl]
  have authorized : (s.operations.modify oid (OperationPatch.apply { state := some .authorized })).get?
      oid = some (OperationPatch.apply { state := some .authorized } current) := by
    rw [Table.get?_modify_self, hcurrent]
    rfl
  let t : Store := { s with
    grants
    operations := s.operations.modify oid (OperationPatch.apply { state := some .authorized }) }
  have started : Writes D now s t :=
    (Write.grantAdded hinsert running starts).writes.then
      (.operationMoved hcurrent (.stepped live (fun _ => ⟨owner ▸ running, starts⟩) (by simp) rfl
        (owner ▸ acts) (.inl rfl)) (.opened rfl rfl))
  have moved : Writes D now s { t with
      grants := grants.modify gid fun g =>
        { g with remaining := g.remaining - 1, consumedAt := some now }
      operations := t.operations.modify oid (Store.startPatch ctx gid).apply } :=
    (started.then (.grantConsumed granted running starts)).then
      (.operationMoved authorized
        (.stepped live (fun _ => ⟨owner ▸ running, starts⟩) (by simp [Store.startPatch]) rfl
          (owner ▸ acts) (.inl rfl)) (.opened rfl rfl))
  exact (moved.then (.ledger ledger)).then (.event _ _ _ _)

/-! ## Steps -/

/-- The worker whose step an action is. -/
def Action.worker : Action → Option ExecutionContext
  | .settle _ ctx _ | .finishOperation ctx _ _ | .startOperation ctx _ _ _ _ _
  | .annotateOperation ctx _ _ | .suspendExchange ctx _ _ _ _ | .sendExchange ctx _ _ _ => some ctx
  | _ => none

/-- The actions that raise or answer barriers. -/
def Action.answers : Action → Bool
  | .refreshWaits | .respond _ _ _ | .expireInteractions | .settle _ _ _ | .cancel _ _ _ => true
  | _ => false

/-- The action stays within the scope. -/
structure Scope.Covers (scope : Scope) (host : Host) (s : Store) (now : Time) (a : Action) : Prop where
  worker : ∀ ctx, a.worker = some ctx → scope.acts ctx.runId
  recover : ∀ machine rid, a = .recoverRun machine rid → s.Exited machine rid → scope.acts rid
  starts : ∀ ctx oid o grant binding policyRevision,
    a = .startOperation ctx oid o grant binding policyRevision → scope.starts
  repeats : ∀ tool version spec, host.registry tool version = some spec → spec.effect = .read →
    scope.repeats tool version
  confirms : ∀ machine owner oid request, a = .reconcile machine owner oid request →
    request.decision = .confirmNotExecuted → scope.confirms oid
  registers : ∀ ctx row fresh, a = .prepareOperation ctx row fresh → ∀ o, scope.registers o
  asks : ∀ ctx request fresh, a = .prepareInteraction ctx request fresh → scope.asks request.key
  suspends : ∀ ctx oid o pending fresh, a = .suspendExchange ctx oid o pending fresh →
    scope.exchanges ∧ ∀ round hash, scope.asks (.mcp oid round hash)
  sends : ∀ ctx oid o c, a = .sendExchange ctx oid o c → scope.exchanges
  takes : ∀ process fresh rid s' run branch, a = .claim process fresh →
    claim host s process fresh now = .ok (some rid, s') → s.runs.get? rid = some run →
    s.branches.get? run.branchId = some branch → host.Room s.runs run →
    scope.takes s.runs run branch.graphThreadKey
  answers : a.answers = true → ∀ rid, scope.answers rid
  revises : ∀ owner session request fresh, a = .submit owner session request fresh → scope.revises

theorem Scope.Covers.all (host : Host) (s : Store) (now : Time) (a : Action) :
    Scope.Covers {} host s now a where
  worker _ _ := trivial
  recover _ _ _ _ := trivial
  starts _ _ _ _ _ _ _ := trivial
  repeats _ _ _ _ _ := trivial
  confirms _ _ _ _ _ _ := trivial
  registers _ _ _ _ _ := trivial
  asks _ _ _ _ := trivial
  suspends _ _ _ _ _ _ := ⟨trivial, fun _ _ => trivial⟩
  sends _ _ _ _ _ := trivial
  takes _ _ _ _ _ _ _ _ _ _ _ := trivial
  answers _ _ := trivial
  revises _ _ _ _ _ := trivial

/-- What the disciplines ask of a step.  Every other fact of a write is checked by the source or
guaranteed by its callers. -/
structure Discipline.Meets (D : Discipline) (host : Host) (s : Store) (now : Time) (a : Action) :
    Prop where
  scope : D.scope.Covers host s now a
  cancel : ∀ owner root reason, a = .cancel owner root reason → ¬D.childrenFirst ∧
    (D.resolved → ∀ e ∈ s.descendants root, e.2.status = .queued → s.OpsResolved e.1)
  settle : ∀ machine ctx outcome, a = .settle machine ctx outcome → s.Running ctx.runId →
    SettleMeets D s ctx outcome
  reconcile : ∀ machine owner oid request, a = .reconcile machine owner oid request →
    D.wholeBarrier → request.decision ≠ .acceptUnresolved → ∀ rid run,
      s.Releases oid rid run → ∀ id ∈ run.requiredInterrupts, s.Answered id
  delegate : ∀ ctx key request allowed ids, a = .delegate ctx key request allowed ids →
    D.childrenLater → s.dependencies.get? key = none → ∀ parent, s.runs.get? ctx.runId = some parent →
      ¬Store.createdBefore (ids.run, childRow ctx parent request ids now) (ctx.runId, parent)

theorem perform_writes {host : Host} {a : Action} (go : s.QueuedGo) (tree : s.Tree)
    (admissible : a.admissible s = true) (meets : D.Meets host s now a)
    (h : a.perform host s now = .ok s') : Writes D now s s' := by
  have covers := meets.scope
  cases a with
  | tick _ =>
      cases h
      exact .refl
  | addBranch fresh row =>
      obtain ⟨branches, hbranches, rfl, unique⟩ := Store.addBranch_eq_ok h
      exact (Write.branchAdded hbranches rfl unique).writes
  | setMaintenance enabled =>
      cases h
      exact (Write.books s.ledger s.events s.outbox s.inputCommands enabled).writes
  | submit owner session request fresh =>
      exact submit_writes (covers.revises owner session request fresh rfl) h
  | claim process fresh =>
      obtain ⟨⟨taken, t⟩, hclaim, h⟩ := bind_eq_ok.mp h
      cases h
      refine claim_writes go (fun rid run branch same hrun hbranch room => ?_) hclaim
      subst same
      exact covers.takes process fresh rid _ run branch rfl hclaim hrun hbranch room
  | heartbeat ctx => exact heartbeat_writes h
  | delegate ctx key request allowed ids =>
      obtain ⟨⟨child, t⟩, hdelegate, h⟩ := bind_eq_ok.mp h
      cases h
      exact delegate_writes (meets.delegate ctx key request allowed ids rfl) hdelegate
  | prepareWait ctx key children mode fresh =>
      obtain ⟨⟨wid, w, t⟩, hwait, h⟩ := bind_eq_ok.mp h
      cases h
      exact prepareWait_writes hwait
  | steer owner rid text expected fresh => exact steer_writes h
  | ackInputCommands ctx ids => exact ackInputCommands_writes h
  | refreshWaits => exact refreshWaits_writes (covers.answers rfl) h
  | respond owner iid request => exact respond_writes (fun i _ => covers.answers rfl i.runId) h
  | expireInteractions => exact expireInteractions_writes (covers.answers rfl) h
  | settle machine ctx outcome =>
      refine settle_writes (fun ref href oid o hrequest ho => ?_) (covers.worker ctx rfl)
        (meets.settle machine ctx outcome rfl) (covers.answers rfl) h
      have own := List.all_eq_true.mp admissible ref href
      simpa [hrequest, ho] using own
  | cancel owner root reason =>
      obtain ⟨plain, resolved⟩ := meets.cancel owner root reason rfl
      exact cancel_writes tree resolved plain (covers.answers rfl) h
  | finishIdle => exact finishIdle_writes h
  | recoverRun machine rid =>
      obtain ⟨listed, hlisted, h⟩ := bind_eq_ok.mp h
      split at h
      · rename_i status
        exact recoverRun_writes (Store.run_eq_ok.mp hlisted) status (covers.recover machine rid rfl)
          covers.repeats h
      · cases h
        exact .refl
  | reconcile machine owner oid request =>
      exact reconcile_writes (meets.reconcile machine owner oid request rfl)
        (covers.confirms machine owner oid request rfl) h
  | prepareOperation ctx row fresh =>
      obtain ⟨⟨oid, o, t⟩, hprepare, h⟩ := bind_eq_ok.mp h
      cases h
      exact prepareOperation_writes (covers.registers _ _ _ rfl) hprepare
  | finishOperation ctx oid result =>
      exact finishOperation_writes admissible (covers.worker ctx rfl) h
  | startOperation ctx oid o grant binding policyRevision =>
      exact startOperation_writes (Bool.and_eq_true_iff.mp admissible).1 (covers.worker ctx rfl)
        (covers.starts ctx oid o grant binding policyRevision rfl) h
  | annotateOperation ctx oid a =>
      exact annotateOperation_writes admissible (covers.worker ctx rfl) h
  | suspendExchange ctx oid o pending fresh =>
      obtain ⟨⟨iid, t⟩, hsuspend, h⟩ := bind_eq_ok.mp h
      cases h
      obtain ⟨exchanges, asks⟩ := covers.suspends ctx oid o pending fresh rfl
      exact suspendExchange_writes (Bool.and_eq_true_iff.mp admissible).1 (covers.worker ctx rfl)
        exchanges asks hsuspend
  | sendExchange ctx oid o c =>
      obtain ⟨own, read⟩ := Bool.and_eq_true_iff.mp admissible
      exact sendExchange_writes own (covers.worker ctx rfl) (covers.sends ctx oid o c rfl) read h
  | prepareInteraction ctx request fresh =>
      obtain ⟨⟨iid, i, t⟩, hprepare, h⟩ := bind_eq_ok.mp h
      cases h
      exact prepareInteraction_writes (covers.asks ctx request fresh rfl) hprepare
  | reserve account key items =>
      obtain ⟨ledger, -, h⟩ := bind_eq_ok.mp h
      cases h
      exact (Write.ledger ledger).writes
  | settleReservation key actual =>
      obtain ⟨ledger, -, h⟩ := bind_eq_ok.mp h
      cases h
      exact (Write.ledger ledger).writes

/-- A step passes time or performs an admissible action. -/
theorem World.next_perform {host : Host} {w w' : World} {a : Action} (h : w.next host a = some w') :
    (∃ now, a = .tick now ∧ w.now ≤ now ∧ w' = { w with now }) ∨
      a.admissible w.store = true ∧ ∃ store, a.perform host w.store w.now = .ok store ∧
        w' = { w with store } := by
  unfold World.next at h
  split at h
  · split at h
    · cases h
      exact .inl ⟨_, rfl, ‹_›, rfl⟩
    · cases h
  · split at h
    · rename_i admissible
      split at h
      · rename_i store hperform
        cases h
        exact .inr ⟨admissible, store, hperform, rfl⟩
      · cases h
    · cases h

/-- A step of the system passes time or is a sequence of writes. -/
theorem next_writes {host : Host} {w w' : World} {a : Action} (go : w.store.QueuedGo)
    (tree : w.store.Tree) (meets : D.Meets host w.store w.now a) (h : w.next host a = some w') :
    w.now ≤ w'.now ∧ Writes D w.now w.store w'.store := by
  rcases World.next_perform h with ⟨now, rfl, later, rfl⟩ | ⟨admissible, store, hperform, rfl⟩
  · exact ⟨later, .refl⟩
  · exact ⟨Nat.le_refl _, perform_writes go tree admissible meets hperform⟩

end MiHarness

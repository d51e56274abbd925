import MiHarness.Storage.Store

/-!
# Statements that succeed

What each statement of the store has checked and what it has changed, when it succeeds.  The
proofs about transactions read their statements backwards with these lemmas and do not unfold
them.
-/

namespace MiHarness

open Library

namespace Store

variable {s s' : Store} {now : Time}

/-! ## Reads -/

theorem run_eq_ok {rid : RunId} {row : Run} : s.run rid = .ok row ↔ s.runs.get? rid = some row :=
  orThrow_eq_ok

theorem branch_eq_ok {bid : BranchId} {row : Branch} :
    s.branch bid = .ok row ↔ s.branches.get? bid = some row :=
  orThrow_eq_ok

theorem operation_eq_ok {oid : OperationId} {o : Operation} :
    s.operation oid = .ok o ↔ s.operations.get? oid = some o :=
  orThrow_eq_ok

theorem interaction_eq_ok {iid : InteractionId} {i : Interaction} :
    s.interaction iid = .ok i ↔ s.interactions.get? iid = some i :=
  orThrow_eq_ok

theorem wait_eq_ok {wid : WaitId} {w : Wait} : s.wait wid = .ok w ↔ s.waits.get? wid = some w :=
  orThrow_eq_ok

theorem ownedRun_eq_ok {rid : RunId} {owner : OwnerId} {row : Run} :
    s.ownedRun rid owner = .ok row ↔ s.runs.get? rid = some row ∧ row.ownerId = owner := by
  simp only [ownedRun, bind_eq_ok, run_eq_ok, require_eq_ok, exists_const, Except.ok.injEq]
  constructor
  · rintro ⟨row, hrow, howner, rfl⟩
    exact ⟨hrow, howner⟩
  · rintro ⟨hrow, howner⟩
    exact ⟨row, hrow, howner, rfl⟩

theorem mem_runsWith {statuses : List RunStatus} {rid : RunId} {row : Run} :
    (rid, row) ∈ s.runsWith statuses ↔ s.runs.get? rid = some row ∧ row.status ∈ statuses := by
  rw [runsWith, List.mem_insertionSort, Table.mem_select, decide_eq_true_iff]

theorem nodup_runsWith (statuses : List RunStatus) :
    ((s.runsWith statuses).map Prod.fst).Nodup :=
  ((List.perm_insertionSort createdBefore _).map Prod.fst).nodup_iff.mpr
    (Table.nodup_select _ _)

theorem pairwise_runsWith (statuses : List RunStatus) :
    (s.runsWith statuses).Pairwise createdBefore := by
  have lexTotal : ∀ p q m n : Nat, (p < q ∨ p = q ∧ m ≤ n) ∨ (q < p ∨ q = p ∧ n ≤ m) := by omega
  have lexTrans : ∀ p q r l m n : Nat, (p < q ∨ p = q ∧ l ≤ m) → (q < r ∨ q = r ∧ m ≤ n) →
      (p < r ∨ p = r ∧ l ≤ n) := by omega
  have total : Std.Total createdBefore := ⟨fun _ _ => lexTotal ..⟩
  have trans : IsTrans (RunId × Run) createdBefore := ⟨fun _ _ _ => lexTrans _ _ _ _ _ _⟩
  exact List.pairwise_insertionSort _ _

theorem mem_operationsOf {rid : RunId} {oid : OperationId} {o : Operation} :
    (oid, o) ∈ s.operationsOf rid ↔ s.operations.get? oid = some o ∧ o.runId = rid := by
  rw [operationsOf, Table.mem_select, decide_eq_true_iff]

theorem mem_interactionsOf {rid : RunId} {iid : InteractionId} {i : Interaction} :
    (iid, i) ∈ s.interactionsOf rid ↔ s.interactions.get? iid = some i ∧ i.runId = rid := by
  rw [interactionsOf, Table.mem_select, decide_eq_true_iff]

theorem mem_childIds {parent child : RunId} :
    child ∈ s.childIds parent ↔
      ∃ key d, s.dependencies.get? key = some d ∧ d.parentId = parent ∧ d.childId = child := by
  rw [childIds, List.mem_map]
  constructor
  · rintro ⟨⟨key, d⟩, hmem, rfl⟩
    rw [Table.mem_select, decide_eq_true_iff] at hmem
    exact ⟨key, d, hmem.1, hmem.2, rfl⟩
  · rintro ⟨key, d, hget, hparent, rfl⟩
    exact ⟨(key, d), by rw [Table.mem_select, decide_eq_true_iff]; exact ⟨hget, hparent⟩, rfl⟩

theorem mem_children {parent rid : RunId} {row : Run} :
    (rid, row) ∈ s.children parent ↔ rid ∈ s.childIds parent ∧ s.runs.get? rid = some row := by
  rw [children, List.mem_filterMap]
  constructor
  · rintro ⟨id, hid, hrow⟩
    obtain ⟨r, hr, heq⟩ := Option.map_eq_some_iff.mp hrow
    cases heq
    exact ⟨hid, hr⟩
  · rintro ⟨hid, hrow⟩
    exact ⟨rid, hid, by rw [hrow]; rfl⟩

/-! ## The fence -/

theorem assertFence_eq_ok {ctx : ExecutionContext} {allow : Bool} {u : Unit} :
    s.assertFence ctx now allow = .ok u ↔ ∃ row, s.runs.get? ctx.runId = some row ∧
      s.Holds ctx now ∧ (row.status = .running ∨ allow = true ∧ row.status = .cancelling) ∧
      (row.cancelRequested = true → allow = true) := by
  simp only [assertFence, bind_eq_ok, run_eq_ok, require_eq_ok, exists_and_left, exists_const]

/-! ## Writes -/

theorem addBranch_eq_ok {bid : BranchId} {row : Branch} (h : s.addBranch bid row = .ok s') :
    ∃ branches, s.branches.insert? bid row = some branches ∧ s' = { s with branches } ∧
      ∀ bid' row', s.branches.get? bid' = some row' → row'.graphThreadKey ≠ row.graphThreadKey := by
  simp only [addBranch, bind_eq_ok, require_eq_ok, orThrow_eq_ok, exists_const,
    Except.ok.injEq] at h
  obtain ⟨unique, branches, hinsert, rfl⟩ := h
  refine ⟨branches, hinsert, rfl, fun bid' row' hget => ?_⟩
  simpa using Table.any_eq_false.mp unique bid' row' hget

theorem advanceBranch_eq_ok {bid : BranchId} {expected : Nat}
    (h : s.advanceBranch bid expected = .ok s') :
    s' = { s with branches := s.branches.modify bid fun b => { b with revision := b.revision + 1 } }
    := by
  simp only [advanceBranch, bind_eq_ok, require_eq_ok, exists_const, Except.ok.injEq] at h
  exact h.2.symm

theorem setBranchOwner_eq_ok {bid : BranchId} {expected owner : Option RunId}
    (h : s.setBranchOwner bid expected owner = .ok s') :
    (∃ b, s.branches.get? bid = some b ∧ b.activeRunId = expected) ∧
      s' = { s with branches := s.branches.modify bid fun b => { b with activeRunId := owner } } := by
  simp only [setBranchOwner, bind_eq_ok, require_eq_ok, exists_const, Except.ok.injEq] at h
  exact ⟨Option.map_eq_some_iff.mp h.1, h.2.symm⟩

theorem insertRun_eq_ok {rid : RunId} {row : Run} (h : s.insertRun rid row = .ok s') :
    ∃ runs, s.runs.insert? rid row = some runs ∧ s' = { s with runs } := by
  simp only [insertRun, bind_eq_ok, orThrow_eq_ok, Except.ok.injEq] at h
  obtain ⟨runs, hinsert, rfl⟩ := h
  exact ⟨runs, hinsert, rfl⟩

theorem updateRun_eq_ok {rid : RunId} {expected : Nat} {patch : RunPatch}
    {ctx : Option ExecutionContext} (h : s.updateRun rid expected patch ctx now = .ok s') :
    s.assertFence? ctx now = .ok () ∧ (s.runs.get? rid).map Run.revision = some expected ∧
      s' = { s with runs := s.runs.modify rid patch.apply } := by
  simp only [updateRun, bind_eq_ok, require_eq_ok, exists_const, Except.ok.injEq] at h
  obtain ⟨_, fence, revision, rfl⟩ := h
  exact ⟨fence, revision, rfl⟩

theorem addAttempt_eq_ok {aid : AttemptId} {row : Attempt} (h : s.addAttempt aid row = .ok s') :
    ∃ attempts, s.attempts.insert? aid row = some attempts ∧ s' = { s with attempts } := by
  simp only [addAttempt, bind_eq_ok, orThrow_eq_ok, Except.ok.injEq] at h
  obtain ⟨attempts, hinsert, rfl⟩ := h
  exact ⟨attempts, hinsert, rfl⟩

theorem prepareOperation_eq_ok {ctx : ExecutionContext} {row : PreparedRow}
    {fresh oid : OperationId} {o : Operation}
    (h : s.prepareOperation ctx row fresh now = .ok (oid, o, s')) :
    s.assertFence ctx now = .ok () ∧
      (s.operationByKey ⟨ctx.runId, row.messageId, row.toolCallId⟩ = some (oid, o) ∧ s' = s ∧
          o.argsHash = row.argsHash ∧ o.toolRevision = row.toolRevision ∧ o.toolId = row.toolId ∨
        s.operationByKey ⟨ctx.runId, row.messageId, row.toolCallId⟩ = none ∧ oid = fresh ∧
          o = { runId := ctx.runId, messageId := row.messageId, toolCallId := row.toolCallId
                toolId := row.toolId, toolRevision := row.toolRevision, argsHash := row.argsHash
                args := row.args, resourceFingerprint := row.resourceFingerprint
                attemptId := ctx.workerAttemptId, fencingToken := ctx.fencingToken
                createdAt := now } ∧
          ∃ operations, s.operations.insert? fresh o = some operations ∧
            s' = { s with operations }.event ctx.runId .toolPrepared
              (.tool fresh row.toolId row.toolRevision none none) now) := by
  simp only [prepareOperation, bind_eq_ok] at h
  obtain ⟨_, fence, h⟩ := h
  refine ⟨fence, ?_⟩
  split at h
  · rename_i id existing hkey
    simp only [bind_eq_ok, require_eq_ok, exists_const, Except.ok.injEq, Prod.mk.injEq] at h
    obtain ⟨same, rfl, rfl, rfl⟩ := h
    exact .inl ⟨hkey, rfl, same⟩
  · rename_i hkey
    simp only [bind_eq_ok, orThrow_eq_ok, Except.ok.injEq, Prod.mk.injEq] at h
    obtain ⟨operations, hinsert, rfl, rfl, rfl⟩ := h
    exact .inr ⟨hkey, rfl, rfl, operations, hinsert, rfl⟩

theorem updateOperation_eq_ok {oid : OperationId} {expected : Nat} {patch : OperationPatch}
    {ctx : Option ExecutionContext} (h : s.updateOperation oid expected patch ctx now = .ok s') :
    s.assertFence? ctx now = .ok () ∧
      (∃ o, s.operations.get? oid = some o ∧ o.revision = expected) ∧
      s' = { s with operations := s.operations.modify oid patch.apply } := by
  simp only [updateOperation, bind_eq_ok, require_eq_ok, exists_const, Except.ok.injEq] at h
  obtain ⟨_, fence, revision, rfl⟩ := h
  exact ⟨fence, Option.map_eq_some_iff.mp revision, rfl⟩

theorem addGrant_eq_ok {gid : GrantId} {grant : Grant} (h : s.addGrant gid grant = .ok s') :
    ∃ grants, s.grants.insert? gid grant = some grants ∧ s' = { s with grants } := by
  simp only [addGrant, bind_eq_ok, orThrow_eq_ok, Except.ok.injEq] at h
  obtain ⟨grants, hinsert, rfl⟩ := h
  exact ⟨grants, hinsert, rfl⟩

/-- The patch with which `consume_grant` starts an operation. -/
def startPatch (ctx : ExecutionContext) (gid : GrantId) : OperationPatch :=
  { state := some .running, grantId := some (some gid), attemptId := some ctx.workerAttemptId
    fencingToken := some ctx.fencingToken }

theorem consumeGrant_eq_ok {ctx : ExecutionContext} {gid : GrantId} {binding : ApprovalBinding}
    {policyRevision : Nat} (h : s.consumeGrant ctx gid binding policyRevision now = .ok s') :
    s.assertFence ctx now = .ok () ∧ ∃ grant o, s.grants.get? gid = some grant ∧
      (grant.ownerId = ctx.ownerId ∧ grant.runId = ctx.runId ∧ grant.revoked = false ∧
        1 ≤ grant.remaining) ∧
      (grant.binding = binding ∧ now < grant.binding.expiresAt ∧
        grant.binding.policyRevision = policyRevision) ∧
      s.operations.get? grant.operationId = some o ∧ (o.state = .prepared ∨ o.state = .authorized) ∧
      s' = { s with
        grants := s.grants.modify gid fun g =>
          { g with remaining := g.remaining - 1, consumedAt := some now }
        operations := s.operations.modify grant.operationId (startPatch ctx gid).apply } := by
  simp only [consumeGrant, bind_eq_ok, orThrow_eq_ok, require_eq_ok, operation_eq_ok,
    exists_const] at h
  obtain ⟨_, fence, grant, hgrant, usable, current, o, ho, unstarted, hupdate⟩ := h
  obtain ⟨-, -, rfl⟩ := updateOperation_eq_ok hupdate
  exact ⟨fence, grant, o, hgrant, usable, current, ho, unstarted, rfl⟩

theorem prepareInteraction_eq_ok {ctx : ExecutionContext} {request : InteractionRequest}
    {fresh iid : InteractionId} {i : Interaction}
    (h : s.prepareInteraction ctx request fresh now = .ok (iid, i, s')) :
    s.assertFence ctx now = .ok () ∧
      (s.interactions.get? iid = some i ∧ i.runId = ctx.runId ∧ i.requestKey = request.key ∧
          s' = s ∨
        (∀ id i', s.interactions.get? id = some i' → i'.runId = ctx.runId →
          i'.requestKey ≠ request.key) ∧ iid = fresh ∧
          i = { runId := ctx.runId, requestKey := request.key, inputRevision := ctx.inputRevision
                kind := request.kind, prompt := request.prompt
                responseSchema := request.responseSchema, bindingRef := request.bindingRef
                operationId := request.operationId, expiresAt := request.expiresAt } ∧
          ∃ interactions, s.interactions.insert? fresh i = some interactions ∧
            s' = { s with interactions }) := by
  simp only [prepareInteraction, bind_eq_ok] at h
  obtain ⟨_, fence, h⟩ := h
  refine ⟨fence, ?_⟩
  split at h
  · rename_i id row hfind
    simp only [Except.ok.injEq, Prod.mk.injEq] at h
    obtain ⟨rfl, rfl, rfl⟩ := h
    have hmem := List.mem_of_find?_eq_some hfind
    have hprop := List.find?_some hfind
    simp only [decide_eq_true_eq] at hprop
    exact .inl ⟨Table.mem_rows.mp hmem, hprop.1, hprop.2, rfl⟩
  · rename_i hfind
    simp only [bind_eq_ok, orThrow_eq_ok, Except.ok.injEq, Prod.mk.injEq] at h
    obtain ⟨interactions, hinsert, rfl, rfl, rfl⟩ := h
    refine .inr ⟨fun id i' hget hrun hkey => ?_, rfl, rfl, interactions, hinsert, rfl⟩
    have := List.find?_eq_none.mp hfind (id, i') (Table.mem_rows.mpr hget)
    simp only [decide_eq_true_eq] at this
    exact this ⟨hrun, hkey⟩

theorem updateInteraction_eq_ok {iid : InteractionId} {expected : Nat} {patch : InteractionPatch}
    (h : s.updateInteraction iid expected patch = .ok s') :
    s' = { s with interactions := s.interactions.modify iid patch.apply } := by
  simp only [updateInteraction, bind_eq_ok, require_eq_ok, exists_const, Except.ok.injEq] at h
  exact h.2.symm

theorem addDependency_eq_ok {key : OperationKey} {d : Dependency}
    (h : s.addDependency key d = .ok s') :
    ∃ dependencies, s.dependencies.insert? key d = some dependencies ∧
      s' = { s with dependencies } := by
  simp only [addDependency, bind_eq_ok, orThrow_eq_ok, Except.ok.injEq] at h
  obtain ⟨dependencies, hinsert, rfl⟩ := h
  exact ⟨dependencies, hinsert, rfl⟩

theorem addWait_eq_ok {parent : RunId} {key : OperationId} {children : List RunId} {mode : WaitMode}
    {fresh wid : WaitId} {w : Wait} (h : s.addWait parent key children mode fresh = .ok (wid, w, s')) :
    s' = s ∨ w = { parentId := parent, requestKey := key, childIds := children, mode } ∧
      ∃ waits, s.waits.insert? fresh w = some waits ∧ s' = { s with waits } := by
  unfold addWait at h
  split at h
  · simp only [Except.ok.injEq, Prod.mk.injEq] at h
    exact .inl h.2.2.symm
  · simp only [bind_eq_ok, orThrow_eq_ok, Except.ok.injEq, Prod.mk.injEq] at h
    obtain ⟨waits, hinsert, rfl, rfl, rfl⟩ := h
    exact .inr ⟨rfl, waits, hinsert, rfl⟩

theorem updateWait_eq_ok {wid : WaitId} {expected : Nat} {interruptId : Option InterruptId}
    {checkpoint : Option CheckpointRef} {resolution : Option Resolution}
    (h : s.updateWait wid expected interruptId checkpoint resolution = .ok s') :
    (∃ w, s.waits.get? wid = some w ∧ w.revision = expected) ∧
      s' = { s with waits := s.waits.modify wid fun w =>
        { w with interruptId, checkpointRef := checkpoint, resolution, revision := w.revision + 1 } }
    := by
  simp only [updateWait, bind_eq_ok, require_eq_ok, exists_const, Except.ok.injEq] at h
  exact ⟨Option.map_eq_some_iff.mp h.1, h.2.symm⟩

theorem addInputCommand_eq_ok {rid : RunId} {revision : Nat} {text : String} {fresh : CommandId}
    (h : s.addInputCommand rid revision text fresh = .ok s') :
    ∃ inputCommands, s' = { s with inputCommands } := by
  simp only [addInputCommand, bind_eq_ok, orThrow_eq_ok, require_eq_ok, exists_const,
    Except.ok.injEq] at h
  obtain ⟨-, inputCommands, -, rfl⟩ := h
  exact ⟨inputCommands, rfl⟩

/-- The commands of a run after some of them are acknowledged. -/
def acknowledged (s : Store) (rid : RunId) (ids : List CommandId) : Table CommandId InputCommand :=
  s.inputCommands.mapRows fun id c =>
    if id ∈ ids ∧ c.runId = rid then { c with consumed := true } else c

theorem ackInputCommands_eq_ok {ctx : ExecutionContext} {ids : List CommandId}
    (h : s.ackInputCommands ctx ids now = .ok s') :
    s.assertFence ctx now = .ok () ∧ ∃ row, s.runs.get? ctx.runId = some row ∧
      (ctx.inputRevision ≤ row.inputRevision ∧
          s' = { s with inputCommands := s.acknowledged ctx.runId ids } ∨
        row.inputRevision < ctx.inputRevision ∧ s' = { s with
          inputCommands := s.acknowledged ctx.runId ids
          runs := s.runs.modify ctx.runId fun r =>
            { r with inputRevision := ctx.inputRevision, revision := r.revision + 1 } }) := by
  simp only [ackInputCommands, bind_eq_ok, run_eq_ok] at h
  obtain ⟨_, fence, row, hrow, h⟩ := h
  refine ⟨fence, row, hrow, ?_⟩
  split at h
  · rename_i later
    obtain ⟨t, h, hs'⟩ := bind_eq_ok.mp h
    obtain ⟨-, -, rfl⟩ := updateRun_eq_ok h
    exact .inr ⟨later, (Except.ok.inj hs').symm⟩
  · rename_i early
    exact .inl ⟨Nat.le_of_not_lt early, (Except.ok.inj h).symm⟩

theorem heartbeat_eq_ok {ctx : ExecutionContext} {expiry : Time}
    (h : s.heartbeat ctx expiry now = .ok s') :
    s.assertFence ctx now true = .ok () ∧ s' = { s with
      attempts := s.attempts.modify ctx.workerAttemptId fun a =>
        if a.endedAt = none then { a with leaseExpiry := expiry } else a } := by
  simp only [heartbeat, bind_eq_ok, Except.ok.injEq] at h
  obtain ⟨_, fence, rfl⟩ := h
  exact ⟨fence, rfl⟩

end Store

end MiHarness

import MiHarness.Scheduler.Writes

/-!
# Transitions refine the row protocol

Each transaction that succeeds is a sequence of writes.  A lemma per transaction reads it
backwards, statement by statement, and gives the write of each.  Where the source leaves a
fact unchecked, the lemma asks for it under the discipline that names it.

This module has the sequences and the transitions of a run.
-/

namespace MiHarness

open Library

variable {D : Discipline} {now : Time} {s s' t : Store}

/-! ## Sequences of writes -/

theorem Write.writes (h : Write D now s s') : Writes D now s s' := .single h

theorem Writes.refl : Writes D now s s := Relation.ReflTransGen.refl

theorem Writes.trans (h : Writes D now s t) (k : Writes D now t s') : Writes D now s s' :=
  Relation.ReflTransGen.trans h k

theorem Writes.then (h : Writes D now s t) (k : Write D now t s') : Writes D now s s' := h.tail k

theorem Write.events (events : EventLog) : Write D now s { s with events } :=
  .books s.ledger events s.outbox s.inputCommands s.maintenance

theorem Write.ledger (ledger : Ledger) : Write D now s { s with ledger } :=
  .books ledger s.events s.outbox s.inputCommands s.maintenance

theorem Write.inputCommands (inputCommands : Table CommandId InputCommand) :
    Write D now s { s with inputCommands } :=
  .books s.ledger s.events s.outbox inputCommands s.maintenance

theorem Write.event (rid : RunId) (type : EventType) (data : EventData) (at' : Time) :
    Write D now s (s.event rid type data at') :=
  .events _

/-- A loop whose turns are writes is a sequence of writes. -/
theorem writes_foldlM {α : Type} {f : Store → α → Except HarnessError Store} {l : List α}
    (h : l.foldlM f s = .ok s')
    (turn : ∀ a ∈ l, ∀ t t', Writes D now s t → f t a = .ok t' → Writes D now t t') :
    Writes D now s s' :=
  foldlM_closed (fun _ => .refl) (fun _ _ _ => .trans) h turn

/-! ## The end of a run -/

theorem foldl_event {α : Type} (f : α → RunId × EventType × EventData) (l : List α) (s : Store) :
    ∃ events, l.foldl (fun s e => s.event (f e).1 (f e).2.1 (f e).2.2 now) s = { s with events } := by
  induction l generalizing s with
  | nil => exact ⟨s.events, rfl⟩
  | cons e l ih =>
      obtain ⟨events, h⟩ := ih (s.event (f e).1 (f e).2.1 (f e).2.2 now)
      exact ⟨events, h⟩

namespace Store

theorem cancelInteractions_eq (s : Store) (rid : RunId) (reason : String) (now : Time) :
    ∃ events, s.cancelInteractions rid reason now =
      { s with interactions := s.interactions.mapRows fun _ i => i.close rid reason, events } :=
  foldl_event (fun e : InteractionId × Interaction =>
    (rid, .interactionResolved, .resolved e.1 (e.2.revision + 1) .cancelled)) _ _

theorem cancelOperations_eq_ok {rid : RunId} (h : s.cancelOperations rid now = .ok s') :
    ∃ ledger events, s' = { s with
      operations := s.operations.mapRows fun id o => o.close rid now id, ledger, events } := by
  unfold cancelOperations at h
  obtain ⟨ledger, -, h⟩ := bind_eq_ok.mp h
  obtain ⟨events, he⟩ := foldl_event (fun e : OperationId × Operation =>
    (rid, .toolCompleted, .tool e.1 e.2.toolId e.2.toolRevision (some .cancelled)
      (some (terminalResult e.1 now).summary)))
    (s.operations.select fun _ o => o.runId = rid && o.state.unstarted)
    { s with ledger, operations := s.operations.mapRows fun id o => o.close rid now id }
  exact ⟨ledger, events, (Except.ok.inj h).symm.trans he⟩

theorem finishRun_eq_ok {rid : RunId} {run : Run} (h : s.finishRun rid run now = .ok s') :
    ∃ branch branches ledger events outbox reason,
      s.branches.get? run.branchId = some branch ∧
      (branch.activeRunId ≠ some rid ∧ branches = s.branches ∨ branch.activeRunId = some rid ∧
        branches = s.branches.modify run.branchId fun b => { b with activeRunId := none }) ∧
      s' = { s with
        branches, ledger, events, outbox
        grants := s.grants.mapRows fun id g => g.revoke rid [] id
        interactions := s.interactions.mapRows fun _ i => i.close rid reason
        operations := s.operations.mapRows fun id o => o.close rid now id } := by
  simp only [finishRun, bind_eq_ok, branch_eq_ok] at h
  obtain ⟨branch, hbranch, h⟩ := h
  have tail : ∀ (t : Store) (parent : Store → Except HarnessError Store),
      (∀ u v, parent u = .ok v → ∃ events outbox, v = { u with events, outbox }) →
      ((t.revokeGrants rid []).cancelInteractions rid "run_terminal" now).cancelOperations rid now
        >>= parent = .ok s' →
      ∃ ledger events outbox, s' = { t with
        ledger, events, outbox
        grants := t.grants.mapRows fun id g => g.revoke rid [] id
        interactions := t.interactions.mapRows fun _ i => i.close rid "run_terminal"
        operations := t.operations.mapRows fun id o => o.close rid now id } := by
    intro t parent told ht
    obtain ⟨u, hu, ht⟩ := bind_eq_ok.mp ht
    obtain ⟨events, he⟩ := (t.revokeGrants rid []).cancelInteractions_eq rid "run_terminal" now
    rw [he] at hu
    obtain ⟨ledger, events', rfl⟩ := cancelOperations_eq_ok hu
    obtain ⟨events'', outbox, rfl⟩ := told _ _ ht
    exact ⟨ledger, events'', outbox, rfl⟩
  split at h
  · rename_i active
    obtain ⟨t, ht, h⟩ := bind_eq_ok.mp h
    obtain ⟨-, rfl⟩ := setBranchOwner_eq_ok ht
    obtain ⟨ledger, events, outbox, rfl⟩ := tail _ _ (fun u v told => by
      split at told <;> exact ⟨_, _, (Except.ok.inj told).symm⟩) h
    exact ⟨branch, _, ledger, events, outbox, _, hbranch, .inr ⟨active, rfl⟩, rfl⟩
  · rename_i active
    obtain ⟨ledger, events, outbox, rfl⟩ := tail _ _ (fun u v told => by
      split at told <;> exact ⟨_, _, (Except.ok.inj told).symm⟩) h
    exact ⟨branch, _, ledger, events, outbox, _, hbranch, .inl ⟨active, rfl⟩, rfl⟩

end Store

theorem RunStatus.allowed_cancelling {old new : RunStatus} (h : new ∈ old.allowed)
    (stopping : old = .cancelling) : new = .cancelled := by
  subst stopping
  exact List.mem_singleton.mp h

theorem RunStatus.allowed_live {old new : RunStatus} (h : new ∈ old.allowed) :
    old.terminal = false := by
  cases old <;> first | rfl | cases h

theorem transition_eq_ok {rid : RunId} {status : RunStatus} {ctx : Option ExecutionContext}
    {reason : Option String} {extra : RunPatch}
    (h : transition s rid status ctx reason extra now = .ok s') :
    ∃ run u, s.runs.get? rid = some run ∧ status ∈ run.status.allowed ∧
      s.assertFence? ctx now = .ok () ∧
      (if status.terminal = true then
        { s with runs := s.runs.modify rid { extra with status := some status }.apply }.finishRun rid
          ({ extra with status := some status }.apply run) now
      else .ok { s with runs := s.runs.modify rid { extra with status := some status }.apply }) =
        .ok u ∧
      ∃ events, s' = { u with events } := by
  simp only [transition, bind_eq_ok, Store.run_eq_ok, require_eq_ok, exists_const] at h
  obtain ⟨run, hrun, allowed, t, hupdate, updated, hupdated, h⟩ := h
  obtain ⟨fence, -, rfl⟩ := Store.updateRun_eq_ok hupdate
  have hu : updated = { extra with status := some status }.apply run := by
    simpa [hrun] using hupdated.symm
  subst hu
  split at h
  · rename_i terminal
    obtain ⟨u, hfinish, h⟩ := bind_eq_ok.mp h
    exact ⟨run, u, hrun, allowed, fence, by rw [if_pos terminal]; exact hfinish, _,
      (Except.ok.inj h).symm⟩
  · rename_i terminal
    exact ⟨run, _, hrun, allowed, fence, if_neg terminal, _, (Except.ok.inj h).symm⟩

/-- A transition changes no other run. -/
theorem transition_runs {rid : RunId} {status : RunStatus} {ctx : Option ExecutionContext}
    {reason : Option String} {extra : RunPatch}
    (h : transition s rid status ctx reason extra now = .ok s') :
    s'.runs = s.runs.modify rid { extra with status := some status }.apply := by
  obtain ⟨run, u, -, -, -, hu, events, rfl⟩ := transition_eq_ok h
  split at hu
  · obtain ⟨branch, branches, ledger, events', outbox, reason', -, -, rfl⟩ :=
      Store.finishRun_eq_ok hu
    rfl
  · cases hu
    rfl

/-- A transition to a status that is not terminal changes the row of the run. -/
theorem transition_moved {rid : RunId} {status : RunStatus} {ctx : Option ExecutionContext}
    {reason : Option String} {extra : RunPatch}
    (h : transition s rid status ctx reason extra now = .ok s') (live : status.terminal = false) :
    ∃ run events, s.runs.get? rid = some run ∧ status ∈ run.status.allowed ∧
      s.assertFence? ctx now = .ok () ∧
      s' = { s with
        runs := s.runs.modify rid { extra with status := some status }.apply, events } := by
  obtain ⟨run, u, hrun, allowed, fence, hu, events, rfl⟩ := transition_eq_ok h
  rw [if_neg (by simp [live])] at hu
  cases hu
  exact ⟨run, events, hrun, allowed, fence, rfl⟩

/-- A transition leaves the other tables alone, and the operations unless it ends the run. -/
theorem transition_frame {rid : RunId} {status : RunStatus} {ctx : Option ExecutionContext}
    {reason : Option String} {extra : RunPatch}
    (h : transition s rid status ctx reason extra now = .ok s') :
    s'.dependencies = s.dependencies ∧ s'.attempts = s.attempts ∧
      (s'.operations = s.operations ∨ status.terminal = true ∧
        s'.operations = s.operations.mapRows fun id o => o.close rid now id) := by
  obtain ⟨run, u, -, -, -, hu, events, rfl⟩ := transition_eq_ok h
  split at hu
  · rename_i ends
    obtain ⟨branch, branches, ledger, events', outbox, reason', -, -, rfl⟩ :=
      Store.finishRun_eq_ok hu
    exact ⟨rfl, rfl, .inr ⟨ends, rfl⟩⟩
  · cases hu
    exact ⟨rfl, rfl, .inl rfl⟩

/-- The row of a run that ends. -/
def Run.ended (r : Run) (status : RunStatus) (cancelRequested : Bool)
    (resultRef : Option ArtifactId) (error : Option ErrorEnvelope) (revision : Nat) : Run :=
  { r with status, cancelRequested, resultRef, error, revision }

theorem finishRun_writes {rid : RunId} {run updated : Run} {status : RunStatus}
    {cancelRequested : Bool} {resultRef : Option ArtifactId} {error : Option ErrorEnvelope}
    {revision : Nat} (hrun : s.runs.get? rid = some run) (live : run.status.terminal = false)
    (ends : status.terminal = true) (finality : run.status = .cancelling → status = .cancelled)
    (h : { s with
      runs := s.runs.modify rid fun r =>
        r.ended status cancelRequested resultRef error revision }.finishRun rid updated now = .ok s')
    (branch : updated.branchId = run.branchId) (resolved : D.resolved → s.OpsResolved rid)
    (children : D.childrenFirst → s.ChildrenEnded rid)
    (worked : run.status ∈ recoverable → D.scope.acts rid ∨ s.AttemptOver run) :
    Writes D now s s' := by
  obtain ⟨b, branches, ledger, events, outbox, reason, hbranch, released, rfl⟩ :=
    Store.finishRun_eq_ok h
  rw [branch] at hbranch released
  exact (Write.finished cancelRequested revision resultRef error reason hrun live ends hbranch
    released resolved children rfl finality worked).writes.then
    (.books ledger events outbox s.inputCommands s.maintenance)

/-- A transition to a terminal status ends the run. -/
theorem transition_finished {rid : RunId} {status : RunStatus} {ctx : Option ExecutionContext}
    {reason : Option String} {resultRef : Option ArtifactId} {error : Option ErrorEnvelope}
    (h : transition s rid status ctx reason { resultRef, error } now = .ok s')
    (ends : status.terminal = true) (resolved : D.resolved → s.OpsResolved rid)
    (children : D.childrenFirst → s.ChildrenEnded rid)
    (worked : ∀ run, s.runs.get? rid = some run → run.status ∈ recoverable →
      D.scope.acts rid ∨ s.AttemptOver run) : Writes D now s s' := by
  obtain ⟨run, u, hrun, allowed, -, hu, events, rfl⟩ := transition_eq_ok h
  rw [if_pos ends] at hu
  have row : s.runs.modify rid (RunPatch.apply { status := some status, resultRef, error }) =
      s.runs.modify rid fun r => r.ended status run.cancelRequested (resultRef.or run.resultRef)
        (error.or run.error) (run.revision + 1) :=
    Table.modify_congr fun r hr => by
      cases hrun.symm.trans hr
      rfl
  rw [row] at hu
  exact (finishRun_writes hrun (RunStatus.allowed_live allowed) ends
    (RunStatus.allowed_cancelling allowed) hu rfl resolved children (worked run hrun)).then (.events events)

end MiHarness

import MiHarness.Scheduler.Invariant

/-!
# Runs that have ended

A run that has ended keeps its row, and everything of it is closed.  The operations are the
exception: `cancel` ends a queued run without looking at them, and a queued run may have an
operation whose exchange awaits the user.  In the runs where no such run is cancelled, an
operation of an ended run is finished or its unknown outcome has been accepted.
-/

namespace MiHarness

open Library

variable {D : Discipline} {now : Time} {s s' : Store} {host : Host}

/-! ## The row of an ended run -/

theorem RunMove.live {rid : RunId} {r r' : Run} (m : RunMove D now s rid r r') :
    r.status.terminal = false := by
  cases m with
  | checkpointed _ live => rcases live with h | h <;> rw [h] <;> rfl
  | reviewed live => rcases live with h | h <;> rw [h] <;> rfl
  | woken waits => rcases waits with h | h <;> rw [h] <;> rfl
  | inputAdvanced _ h | suspended h | lost h | requeued h => rw [h]; rfl
  | cancelling _ h => exact h

/-- Nothing changes the row of a run that has ended. -/
theorem RunEffect.terminal {rid : RunId} {r r' : Run} (e : RunEffect D now s s' rid r')
    (h : s.runs.get? rid = some r) (ended : r.status.terminal = true) : r' = r := by
  cases e with
  | kept hr => exact Option.some.inj (hr.symm.trans h)
  | added absent => cases h.symm.trans absent
  | claimed hr queued => cases h.symm.trans hr; rw [queued] at ended; cases ended
  | moved hr m => cases h.symm.trans hr; rw [m.live] at ended; cases ended
  | released hr review => cases h.symm.trans hr; rw [review] at ended; cases ended
  | finished hr live => cases h.symm.trans hr; rw [live] at ended; cases ended

theorem RunMove.not_ending {rid : RunId} {r r' : Run} (m : RunMove D now s rid r r') :
    r'.status.terminal = false := by
  cases m with
  | suspended _ waits => rcases waits with h | h | h <;> rw [h] <;> rfl
  | checkpointed _ live => rcases live with h | h <;> simp [h, RunStatus.terminal]
  | inputAdvanced _ h => simp [h, RunStatus.terminal]
  | _ => rfl

/-- A run that has ended either had ended before or ends by this write. -/
theorem RunEffect.ended {rid : RunId} {r' : Run} (e : RunEffect D now s s' rid r')
    (ended : r'.status.terminal = true) : s.runs.get? rid = some r' ∨
      (D.resolved → s'.OpsResolved rid) ∧ (D.childrenFirst → s.ChildrenEnded rid) ∧
        s'.Closed rid r'.branchId := by
  cases e with
  | kept hr => exact .inl hr
  | added _ fresh => rw [fresh.queued] at ended; cases ended
  | claimed => cases ended
  | released => cases ended
  | moved _ m => rw [m.not_ending] at ended; cases ended
  | finished _ _ _ resolved children closed => exact .inr ⟨resolved, children, closed⟩

theorem Store.Running.not_terminal {rid : RunId} {r : Run} (running : s.Running rid)
    (h : s.runs.get? rid = some r) : r.status.terminal = false := by
  obtain ⟨r', hr, status⟩ := running
  cases h.symm.trans hr
  rw [status]
  rfl

/-! ## What an ended run leaves -/

/-- Writes leave the operations of a run alone that no worker and no user works on, except to
cancel one that waits. -/
theorem OperationEffect.idle {oid : OperationId} {o : Operation} {r : Run}
    (e : OperationEffect D now s oid o) (h : s.runs.get? o.runId = some r)
    (idle : r.status ∉ [RunStatus.running, .recovering, .cancelling, .needsReview]) :
    s.operations.get? oid = some o ∨ o.state = .cancelled := by
  have busy : ∀ {r'}, s.runs.get? o.runId = some r' →
      r'.status ∉ [RunStatus.running, .recovering, .cancelling, .needsReview] := by
    intro r' hr'
    cases h.symm.trans hr'
    exact idle
  cases e with
  | kept ho => exact .inl ho
  | closed => exact .inr rfl
  | added _ running =>
      obtain ⟨r', hr', status⟩ := running
      exact absurd (by simp [status]) (busy hr')
  | released _ hrun review => exact absurd (by simp [review]) (busy hrun)
  | moved _ m =>
      cases m with
      | stepped live =>
          obtain ⟨r', hr', status | status⟩ := live <;>
            exact absurd (by simp [status]) (busy hr')
      | lost _ hrun listed =>
          refine absurd ?_ (busy hrun)
          revert listed
          simp only [recoverable, List.mem_cons, List.not_mem_nil, or_false]
          rintro (status | status | status) <;> simp [status]
      | reconciled _ hrun status =>
          exact absurd (by rcases status with status | status <;> simp [status]) (busy hrun)
      | accepted _ hrun status => exact absurd (by simp [status]) (busy hrun)

theorem RunStatus.terminal_idle {status : RunStatus} (h : status.terminal = true) :
    status ∉ [RunStatus.running, .recovering, .cancelling, .needsReview] := by
  revert h
  cases status <;> simp [RunStatus.terminal]

/-- What is closed for an ended run stays closed. -/
theorem Store.Closed.write {rid : RunId} {r : Run} (closed : s.Closed rid r.branchId)
    (h : s.runs.get? rid = some r) (ended : r.status.terminal = true) (w : Write D now s s') :
    s'.Closed rid r.branchId where
  branch b hb := by
    cases w.branchEffect hb with
    | kept before | revised before =>
        have free := closed.branch _ before
        exact free
    | added _ idle => simp [idle]
    | givenUp => simp
    | taken _ hrun queued =>
        intro active
        cases active
        cases hrun.symm.trans h
        rw [queued] at ended
        cases ended
  grants gid g hg owner := by
    subst owner
    cases w.grantEffect hg with
    | kept before | consumed before =>
        have revoked := closed.grants gid _ before rfl
        exact revoked
    | added _ running => rw [running.not_terminal h] at ended; cases ended
    | revoked => rfl
  interactions iid i hi owner := by
    subst owner
    cases w.interactionEffect hi with
    | kept before => exact closed.interactions iid i before rfl
    | added _ running => rw [running.not_terminal h] at ended; cases ended
    | closed => rfl
    | moved _ m =>
        cases m with
        | bound _ _ running => rw [running.not_terminal h] at ended; cases ended
        | resolved _ _ answered => exact answered
  operations oid o ho owner := by
    subst owner
    rcases (w.operationEffect ho).idle h (RunStatus.terminal_idle ended) with ho | cancelled
    · exact closed.operations oid o ho rfl
    · rw [cancelled]
      rfl

theorem Store.OpsResolved.write {rid : RunId} {r : Run} (resolved : s.OpsResolved rid)
    (h : s.runs.get? rid = some r) (ended : r.status.terminal = true) (w : Write D now s s') :
    s'.OpsResolved rid := by
  intro oid o ho owner
  subst owner
  rcases (w.operationEffect ho).idle h (RunStatus.terminal_idle ended) with ho | cancelled
  · exact resolved oid o ho rfl
  · simp [Operation.unresolved, cancelled]

/-- Everything of a run that has ended is closed. -/
def Store.EndedClosed (s : Store) : Prop :=
  ∀ rid r, s.runs.get? rid = some r → r.status.terminal = true → s.Closed rid r.branchId

/-- The operations of a run that has ended are resolved. -/
def Store.EndedResolved (s : Store) : Prop :=
  ∀ rid r, s.runs.get? rid = some r → r.status.terminal = true → s.OpsResolved rid

theorem Store.EndedClosed.write (closed : s.EndedClosed) (w : Write D now s s') :
    s'.EndedClosed := by
  intro rid r h ended
  rcases (w.runEffect h).ended ended with hr | ⟨-, -, closes⟩
  · exact (closed rid r hr ended).write hr ended w
  · exact closes

theorem Store.EndedResolved.write (D : Discipline) (hD : D.resolved) (resolved : s.EndedResolved)
    (w : Write D now s s') : s'.EndedResolved := by
  intro rid r h ended
  rcases (w.runEffect h).ended ended with hr | ⟨resolves, -⟩
  · exact (resolved rid r hr ended).write hr ended w
  · exact resolves hD

/-! ## Accepted operations -/

/-- The run is being cancelled or has ended. -/
def RunStatus.stopping (status : RunStatus) : Prop := status = .cancelling ∨ status.terminal = true

theorem RunMove.stays_cancelling {rid : RunId} {r r' : Run} (m : RunMove D now s rid r r')
    (cancelling : r.status = .cancelling) : r'.status = .cancelling := by
  cases m with
  | checkpointed => exact cancelling
  | cancelling => rfl
  | inputAdvanced _ h | suspended h | lost h | requeued h =>
      rw [h] at cancelling
      cases cancelling
  | reviewed h | woken h => rcases h with h | h <;> rw [h] at cancelling <;> cases cancelling

theorem RunEffect.stopping {rid : RunId} {r r' : Run} (e : RunEffect D now s s' rid r')
    (h : s.runs.get? rid = some r) (stopping : r.status.stopping) : r'.status.stopping := by
  rcases stopping with cancelling | ended
  · cases e with
    | kept hr => cases h.symm.trans hr; exact .inl cancelling
    | added absent => cases h.symm.trans absent
    | claimed hr queued => cases h.symm.trans hr; rw [queued] at cancelling; cases cancelling
    | released hr review => cases h.symm.trans hr; rw [review] at cancelling; cases cancelling
    | finished _ _ ends => exact .inr ends
    | moved hr m =>
        cases h.symm.trans hr
        exact .inl (m.stays_cancelling cancelling)
  · exact .inr (e.terminal h ended ▸ ended)

/-- The user accepts an unknown outcome only of a run that stops, and nothing starts it again. -/
def Store.AcceptedStop (s : Store) : Prop :=
  ∀ oid o, s.operations.get? oid = some o → o.metadata.unresolvedAccepted = true →
    o.state ≠ .running ∧ ∃ r, s.runs.get? o.runId = some r ∧ r.status.stopping

theorem RunStatus.stopping.not_running {status : RunStatus} (h : status.stopping) :
    status ≠ .running := by
  rintro rfl
  rcases h with h | h <;> cases h

theorem Store.AcceptedStop.write (stop : s.AcceptedStop) (w : Write D now s s') :
    s'.AcceptedStop := by
  have later : ∀ {rid r}, s.runs.get? rid = some r → r.status.stopping →
      ∃ r', s'.runs.get? rid = some r' ∧ r'.status.stopping := by
    intro rid r hr stopping
    obtain ⟨r', hr', -⟩ := w.run_stays hr
    exact ⟨r', hr', (w.runEffect hr').stopping hr stopping⟩
  intro oid o ho accepted
  cases w.operationEffect ho with
  | kept before =>
      obtain ⟨idle, r, hr, stopping⟩ := stop oid o before accepted
      exact ⟨idle, later hr stopping⟩
  | added _ _ _ blank => rw [blank] at accepted; cases accepted
  | closed before =>
      obtain ⟨-, r, hr, stopping⟩ := stop oid _ before accepted
      exact ⟨by simp [OperationPatch.apply, terminalPatch], later hr stopping⟩
  | released before hrun review _ target plain =>
      obtain ⟨-, r, hr, stopping⟩ :=
        stop oid _ before (by simpa [OperationPatch.apply, plain] using accepted)
      refine ⟨?_, later hr stopping⟩
      rcases target with target | target <;> simp [OperationPatch.apply, target]
  | @moved o patch before m =>
      have kept : (patch.metadata.getD o.metadata).unresolvedAccepted =
          o.metadata.unresolvedAccepted → o.state ≠ .running ∧
            ∃ r, s.runs.get? o.runId = some r ∧ r.status.stopping :=
        fun same => stop oid o before (same ▸ accepted)
      cases m with
      | stepped _ starts _ same =>
          obtain ⟨idle, r, hr, stopping⟩ := kept same
          refine ⟨fun running => ?_, later hr stopping⟩
          cases target : patch.state with
          | none => exact idle (by simpa [OperationPatch.apply, target] using running)
          | some state =>
              obtain ⟨⟨r', hr', status⟩, -⟩ :=
                starts ⟨state, target, .inr (by simpa [OperationPatch.apply, target] using running)⟩
              cases hr.symm.trans hr'
              exact stopping.not_running status
      | lost running _ _ _ plain => exact absurd running (kept (by rw [plain]; rfl)).1
      | reconciled _ _ _ _ target plain =>
          obtain ⟨-, r, hr, stopping⟩ := kept (by rw [plain]; rfl)
          refine ⟨?_, later hr stopping⟩
          rcases target with target | target <;> simp [OperationPatch.apply, target]
      | accepted unknown hr cancelling unmoved =>
          exact ⟨by simp [OperationPatch.apply, unmoved, unknown], later hr (.inl cancelling)⟩

/-! ## Runs of the system -/

theorem reachable_endedClosed {w : World} (h : (system host).Reachable w) : w.store.EndedClosed :=
  reachable_of_free_writes (fun _ _ h => by cases h) (fun _ _ _ _ closed w => closed.write w) h

theorem reachable_acceptedStop {w : World} (h : (system host).Reachable w) :
    w.store.AcceptedStop :=
  reachable_of_free_writes (fun _ _ h => by cases h) (fun _ _ _ _ stop w => stop.write w) h

/-- The row of a run that has ended never changes. -/
theorem path_ended {w w' : World} (reach : (system host).Reachable w)
    (p : (system host).Path w w') {rid : RunId} {r : Run}
    (h : w.store.runs.get? rid = some r) (ended : r.status.terminal = true) :
    w'.store.runs.get? rid = some r := by
  refine p.stable (P := fun w => w.store.runs.get? rid = some r) (fun w a w' reach h step => ?_)
    reach h
  refine (step_writes reach (Discipline.meets_free ..) step).2.invariant
    (I := fun t => t.runs.get? rid = some r) (fun t t' h w => ?_) h
  obtain ⟨r', hr', -⟩ := w.run_stays h
  rw [hr', (w.runEffect hr').terminal h ended]

/-- What a run that has ended leaves in the database. -/
structure Store.Clean (s : Store) (rid : RunId) (r : Run) : Prop where
  branch : ∀ b, s.branches.get? r.branchId = some b → b.activeRunId ≠ some rid
  interactions : ∀ iid i, s.interactions.get? iid = some i → i.runId = rid →
    i.status ≠ .pendingBinding ∧ i.status ≠ .open
  grants : ∀ gid g, s.grants.get? gid = some g → g.runId = rid → g.revoked = true
  operations : ∀ oid o, s.operations.get? oid = some o → o.runId = rid →
    o.state ≠ .prepared ∧ o.state ≠ .authorized ∧ o.state ≠ .running
  unknown : ∀ oid o, s.operations.get? oid = some o → o.runId = rid → o.state = .unknown →
    o.metadata.unresolvedAccepted = true

/-- `cancel` is not applied to a tree with a queued run that has an unresolved operation. -/
def CancelsResolved (w : World) : Action → Prop
  | .cancel _ root _ => ∀ e ∈ w.store.descendants root, e.2.status = .queued →
      w.store.OpsResolved e.1
  | _ => True

/-- The discipline under which operations are resolved when their run ends. -/
def Discipline.resolves : Discipline := { resolved := True }

theorem CancelsResolved.meets {w : World} {a : Action} (h : CancelsResolved w a) :
    Discipline.resolves.Meets host w.store w.now a where
  scope := .all ..
  cancel _ _ _ same := by
    subst same
    exact ⟨not_false, fun _ => h⟩
  settle _ _ _ _ _ := ⟨False.elim, False.elim, False.elim, False.elim⟩
  reconcile _ _ _ _ _ := False.elim
  delegate _ _ _ _ _ _ := False.elim

/-- In every run that cancels no queued run with an unresolved operation, what has ended is
clean and stays as it is. -/
theorem ended_clean {w : World} (reach : ((system host).restrict CancelsResolved).Reachable w)
    {rid : RunId} {r : Run} (h : w.store.runs.get? rid = some r)
    (ended : r.status.terminal = true) :
    w.store.Clean rid r ∧ ∀ w', (system host).Path w w' →
      ∃ r', w'.store.runs.get? rid = some r' ∧ r'.status = r.status := by
  have free := reach.of_restrict
  have closed := reachable_endedClosed free rid r h ended
  have resolved : w.store.EndedResolved :=
    reachable_of_writes (D := Discipline.resolves) (fun _ _ h => by cases h)
      (fun w a _ _ met => CancelsResolved.meets met)
      (fun _ _ _ _ resolved w => resolved.write Discipline.resolves trivial w) reach
  have resolved := resolved rid r h ended
  refine ⟨⟨closed.branch, fun iid i hi owner => ?_, closed.grants, fun oid o ho owner => ?_,
    fun oid o ho owner unknown => ?_⟩, fun w' p => ⟨r, path_ended free p h ended, rfl⟩⟩
  · have pending := closed.interactions iid i hi owner
    constructor <;> intro status <;> rw [status] at pending <;> cases pending
  · have started := closed.operations oid o ho owner
    have known := resolved oid o ho owner
    refine ⟨fun state => ?_, fun state => ?_, fun state => ?_⟩
    · rw [state] at started
      cases started
    · rw [state] at started
      cases started
    · have accepted : o.metadata.unresolvedAccepted = true := by
        simpa [Operation.unresolved, state] using known
      exact (reachable_acceptedStop free oid o ho accepted).1 state
  · simpa [Operation.unresolved, unknown] using resolved oid o ho owner

/-- A completed run is clean. -/
theorem ended_clean_completed : ∃ w r, w.store.runs.get? 10 = some r ∧ r.status = .completed ∧
    (w.store.Clean 10 r ∧ ∀ w', (system Sample.host).Path w w' →
      ∃ r', w'.store.runs.get? 10 = some r' ∧ r'.status = r.status) := by
  let actions : List Action := Sample.submitted ++
    [.claim ⟨1, 1⟩ 20, .settle Sample.machine (Sample.context 20 1) Sample.final]
  have run : (System.runs (World.next Sample.host) Sample.start actions).any (fun w =>
      (w.store.runs.get? 10).any fun r => decide (r.status = .completed)) = true := by decide
  simp only [Option.any_eq_true, decide_eq_true_eq] at run
  obtain ⟨w, hw, r, hr, status⟩ := run
  refine ⟨w, r, hr, status, ended_clean (Sample.reachableWithin (fun a ha w => ?_) hw) hr
    (by rw [status]; rfl)⟩
  simp only [actions, Sample.submitted, List.cons_append, List.nil_append, List.mem_cons,
    List.not_mem_nil, or_false] at ha
  rcases ha with rfl | rfl | rfl | rfl <;> trivial

namespace Sample

/-- The checkpoint run `10` waits at. -/
def checkpoint : CheckpointRef := ⟨5, 1, .langchainV1⟩

/-- An operation of run `10`, as it is prepared. -/
def operation : Operation :=
  { runId := 10, messageId := 1, toolCallId := 1, toolId := .named "mcp", toolRevision := "1"
    argsHash := "args", args := "args", resourceFingerprint := "target", attemptId := 20
    fencingToken := 1, createdAt := 0 }

/-- The operation as it is after its start. -/
def started : Operation := { operation with state := .running, grantId := some 200, revision := 3 }

/-- Run `10` waits for the user in the middle of an exchange with a server, and is answered. -/
def exchanged : List Action := submitted ++
  [.claim ⟨1, 1⟩ 20,
    .prepareOperation (context 20 1) ⟨1, 1, .named "mcp", "1", "args", "args", "target"⟩ 100,
    .startOperation (context 20 1) 100 operation 200 ⟨100, "1", "args", "target", 1, 500⟩ 1,
    .suspendExchange (context 20 1) 100 started ⟨"", "{}", "request", "schema", 1, 1, 900⟩ 40,
    .settle machine (context 20 1)
      { kind := .waiting, runId := 10, inputRevision := 2, checkpointRef := some checkpoint
        interruptRefs := [⟨⟨5, 1, 0, .user 40⟩, checkpoint⟩] },
    .respond 1 40 ⟨2, ⟨"answer", none⟩, none⟩]

end Sample

/-- A queued run whose operation awaits its answer is cancelled, and the operation stays. -/
theorem ended_not_clean : ¬∀ host w, (system host).Reachable w → ∀ rid r,
    w.store.runs.get? rid = some r → r.status.terminal = true → w.store.Clean rid r := by
  intro clean
  have run : (System.runs (World.next Sample.host) Sample.start
      (Sample.exchanged ++ [.cancel 1 10 "user_cancel"])).any (fun w =>
        ((w.store.runs.get? 10).any fun r => r.status.terminal) &&
        (w.store.operations.get? 100).any fun o =>
          decide (o.runId = 10) && decide (o.state = .running)) = true := by decide
  simp only [Option.any_eq_true, Bool.and_eq_true, decide_eq_true_eq] at run
  obtain ⟨w, hw, ⟨r, hr, ended⟩, o, ho, owner, running⟩ := run
  exact ((clean _ w (Sample.reachable hw) 10 r hr ended).operations 100 o ho owner).2.2 running

end MiHarness

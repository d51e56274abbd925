import MiHarness.Scheduler.Invariant
import MiHarness.Tools.Execution

/-!
# What a phase of a call does

`Call.Turn` says once what each phase of a call can do to the database, with the facts under
which it does it.  `Call.Sound` says what a call knows of its operation, whatever the others have
done in between: the operation is its own, and the row it keeps in memory is one the operation
has had.  With that every step of the gateway is a step of the system of transactions, or changes
nothing there (`gateway_base`).
-/

namespace MiHarness

open Library

variable {g : Installation} {c : Call} {s s' : Store} {now : Time} {input : Input}

/-! ## Turns -/

/-- The operation is the one the call asks for. -/
structure Call.Matches (g : Installation) (c : Call) (o : Operation) : Prop where
  key : o.key = c.key
  tool : o.toolId = c.name
  revision : o.toolRevision = c.spec.version
  args : o.argsHash = g.host.contentHash c.args

/-- The operation of a call that has found one. -/
def Phase.target : Phase → Option OperationId
  | .entered => none
  | .registered oid _ _ | .decided oid _ _ _ | .cleared oid _ _ | .special oid
  | .rechecked oid _ _ _ | .working oid _ _ _ | .waiting oid _ _ | .resuming oid _ | .verified oid _
  | .closing oid _ | .finishing oid _ | .settling oid _ => some oid

/-- The row that a call keeps. -/
def Phase.held : Phase → Option Operation
  | .registered _ o _ | .decided _ o _ _ | .cleared _ o _ | .rechecked _ o _ _ | .working _ o _ _
  | .resuming _ o | .verified _ o => some o
  | _ => none

/-- The executor of the operation has been called. -/
def Phase.executes : Phase → Bool
  | .special _ | .working _ _ _ _ | .waiting _ _ _ | .resuming _ _ | .verified _ _ => true
  | _ => false

/-- The operation has not started. -/
def Phase.opens : Phase → Bool
  | .registered _ _ _ | .decided _ _ _ _ | .cleared _ _ _ | .rechecked _ _ _ _ => true
  | _ => false

/-- The interaction that a call puts to the user, and the store it leaves. -/
def Call.Asks (c : Call) (s : Store) (now : Time) (fresh : InteractionId) (oid : OperationId)
    (binding : ApprovalBinding) (i : Interaction) (s' : Store) : Prop :=
  (∃ iid, s.interactions.get? iid = some i ∧ i.runId = c.ctx.runId ∧
    i.requestKey = .approval oid ∧ s' = s) ∨
  ∃ iid, s.prepareInteraction c.ctx (c.approvalRequest oid binding) fresh now = .ok (iid, i, s')

/-- What a call does in a phase. -/
inductive Call.Turn (g : Installation) (c : Call) (s : Store) (now : Time) (input : Input) :
    Phase → Progress → Store → List ToolEvent → Prop where
  | returned {phase : Phase} (value : ToolValue) : Turn g c s now input phase (.done value) s []
  | resumed {oid : OperationId} {o : Operation} :
      s.operationByKey c.key = some (oid, o) → c.Matches g o → o.state = .running →
      o.metadata.protocolContinuation.any (fun k => k.modernMrtr && k.status = .awaitingInput)
        = true →
      Turn g c s now input .entered (.next (.resuming oid o)) s []
  | registered {oid : OperationId} {o : Operation} {fingerprint : Hash} {s' : Store} :
      s.prepareOperation c.ctx (c.prepared g fingerprint) input.fresh now = .ok (oid, o, s') →
      (s.operationByKey c.key = some (oid, o) → c.resume oid o = none) →
      Turn g c s now input .entered (.next (.registered oid o fingerprint)) s' []
  | decided {oid : OperationId} {o : Operation} {fingerprint : Hash} {decision : Decision} :
      g.decide input.env s c.ctx c.spec now = .ok decision → decision.decision ≠ .deny →
      fingerprint = o.resourceFingerprint →
      Turn g c s now input (.registered oid o fingerprint)
        (.next (.decided oid o (c.binding g oid fingerprint decision.policyRevision now)
          decision.decision)) s []
  | refused {phase : Phase} {oid : OperationId} (result : ToolResult) :
      phase.opens = true → phase.target = some oid → result.status = .failed →
      Turn g c s now input phase (.next (.closing oid result)) s []
  | asked {oid : OperationId} {o : Operation} {binding : ApprovalBinding} {i : Interaction}
      {s' : Store} (value : ToolValue) :
      c.Asks s now input.fresh oid binding i s' →
      Turn g c s now input (.decided oid o binding .approval) (.done value) s' []
  | approved {oid : OperationId} {o : Operation} {binding saved : ApprovalBinding}
      {i : Interaction} {s' : Store} :
      c.Asks s now input.fresh oid binding i s' → i.bindingRef = some saved → i.approves = true →
      Turn g c s now input (.decided oid o binding .approval) (.next (.cleared oid o saved)) s' []
  | unapproved {oid : OperationId} {o : Operation} {binding : ApprovalBinding} {i : Interaction}
      {s' : Store} :
      c.Asks s now input.fresh oid binding i s' →
      Turn g c s now input (.decided oid o binding .approval)
        (.next (.closing oid (unapprovedResult oid))) s' []
  | allowed {oid : OperationId} {o : Operation} {binding : ApprovalBinding} {verdict : Verdict} :
      verdict ≠ .approval →
      Turn g c s now input (.decided oid o binding verdict) (.next (.cleared oid o binding)) s []
  | begun {oid : OperationId} {o : Operation} {binding : ApprovalBinding} {ledger : Ledger} :
      c.name.waits = true →
      s.ledger.reserve c.ctx.rootRunId (.tool oid) (Items.single .toolCalls 1) = .ok ledger →
      Turn g c s now input (.cleared oid o binding) (.next (.special oid)) { s with ledger }
        [.invoked oid c.key c.spec]
  | rechecked {oid : OperationId} {o : Operation} {binding : ApprovalBinding} {current : Decision} :
      c.name.waits = false → g.decide input.env s c.ctx c.spec now = .ok current →
      current.decision ≠ .deny → current.policyRevision = binding.policyRevision →
      g.resources input.env c.ctx c.spec c.args = .ok o.resourceFingerprint →
      Turn g c s now input (.cleared oid o binding)
        (.next (.rechecked oid o binding current.policyRevision)) s []
  | granted {oid : OperationId} {o o' : Operation} {binding : ApprovalBinding}
      {policyRevision : Nat} {s' : Store} :
      startOperation s c.ctx oid o input.fresh binding policyRevision now = .ok s' →
      s'.operations.get? oid = some o' →
      Turn g c s now input (.rechecked oid o binding policyRevision)
        (.next (.working oid o' 0 .ready)) s' [.invoked oid c.key c.spec]
  | died {oid : OperationId} {o : Operation} {binding : ApprovalBinding} {policyRevision : Nat}
      {s' : Store} :
      startOperation s c.ctx oid o input.fresh binding policyRevision now = .ok s' →
      Turn g c s now input (.rechecked oid o binding policyRevision) .gone s' []
  | pending {phase : Phase} :
      phase.executes = true → Turn g c s now input phase (.next phase) s []
  | validated {oid : OperationId} {o : Operation} {round : Nat} :
      c.validate g s now oid o = .ok () →
      Turn g c s now input (.working oid o round .ready) (.next (.working oid o round .validated))
        s []
  | sent {oid : OperationId} {o : Operation} {round : Nat} :
      Turn g c s now input (.working oid o round .validated) (.next (.working oid o round .sent)) s
        [.sent oid round]
  | suspended {oid : OperationId} {o : Operation} {round : Nat} {pending : PendingInput}
      {iid : InteractionId} {s' : Store} :
      suspendExchange s c.ctx oid o pending input.fresh now = .ok (iid, s') →
      Turn g c s now input (.working oid o round .sent) (.next (.waiting oid iid round)) s' []
  | concluded {phase : Phase} {oid : OperationId} (result : ToolResult) :
      phase.executes = true → phase.target = some oid →
      Turn g c s now input phase (.next (.finishing oid result)) s []
  | verified {oid : OperationId} {o : Operation} :
      c.mayResume g s now input oid o = .ok () →
      Turn g c s now input (.resuming oid o) (.next (.verified oid o)) s []
  | reawaited {oid : OperationId} {o : Operation} (iid : InteractionId) (round : Nat) :
      Turn g c s now input (.verified oid o) (.next (.waiting oid iid round)) s []
  | answered {oid : OperationId} {o o' : Operation} {k : Continuation} {iid : InteractionId}
      {i : Interaction} {s' : Store} :
      answeredExchange s c.ctx oid o input.schemaHash input.configRevision = .ok (k, iid, i) →
      i.status.pending = false → sendExchange s c.ctx oid o k now = .ok s' →
      s'.operations.get? oid = some o' →
      Turn g c s now input (.verified oid o) (.next (.working oid o' k.round .ready)) s' []
  | closed {oid : OperationId} {result : ToolResult} {s' : Store} :
      finishOperation s c.ctx oid result now = .ok s' →
      Turn g c s now input (.closing oid result) (.done (.result result)) s' []
  | finished {oid : OperationId} {result : ToolResult} {s' : Store} :
      finishOperation s c.ctx oid result now = .ok s' →
      Turn g c s now input (.finishing oid result) (.next (.settling oid result)) s' []
  | settled {oid : OperationId} {result : ToolResult} {ledger : Ledger} (value : ToolValue) :
      s.ledger.settle (.tool oid)
        (if result.status = .unknown then none else some (Amount.single .toolCalls 1)) = .ok ledger →
      Turn g c s now input (.settling oid result) (.done value) { s with ledger } []

theorem Call.resume_eq_some {oid : OperationId} {o : Operation} {progress : Progress}
    (h : c.resume oid o = some progress) :
    (∃ value, progress = .done value) ∨
      progress = .next (.resuming oid o) ∧ o.state = .running ∧
        o.metadata.protocolContinuation.any (fun k => k.modernMrtr && k.status = .awaitingInput)
          = true := by
  have started : ∀ p, c.resumeStarted oid o = some p → (∃ value, p = .done value) ∨
      p = .next (.resuming oid o) ∧ o.state = .running ∧
        o.metadata.protocolContinuation.any (fun k => k.modernMrtr && k.status = .awaitingInput)
          = true := by
    intro p h
    rw [resumeStarted] at h
    split at h
    · split at h
      · rename_i resumes
        cases h
        exact .inr ⟨rfl, resumes.1, resumes.2.2⟩
      · cases h
        exact .inl ⟨_, rfl⟩
    · cases h
  rw [resume] at h
  split at h
  · split at h
    · cases h
      exact .inl ⟨_, rfl⟩
    · exact started _ h
  · exact started _ h

theorem Store.operationByKey_eq_some {key : OperationKey} {oid : OperationId} {o : Operation}
    (h : s.operationByKey key = some (oid, o)) : s.operations.get? oid = some o ∧ o.key = key := by
  have found := List.find?_some h
  simp only [decide_eq_true_eq] at found
  obtain ⟨run, message, call⟩ := found
  refine ⟨Table.mem_rows.mp (List.mem_of_find?_eq_some h), ?_⟩
  rw [Operation.key, run, message, call]

theorem Call.prepare_turn {progress : Progress} (h : c.prepare g s now input = .ok (progress, s'))
    (unstarted : ∀ oid o, s.operationByKey c.key = some (oid, o) → c.resume oid o = none) :
    c.Turn g s now input .entered progress s' [] := by
  rw [prepare] at h
  obtain ⟨fingerprint, _, h⟩ := bind_eq_ok.mp h
  obtain ⟨⟨oid, o, t⟩, hprepare, h⟩ := bind_eq_ok.mp h
  cases h
  exact .registered hprepare fun known => unstarted oid o known

theorem Call.register_turn {progress : Progress}
    (h : c.register g s now input = .ok (progress, s')) :
    c.Turn g s now input .entered progress s' [] := by
  rw [register] at h
  split at h
  · rename_i absent
    exact prepare_turn h fun oid o known => by rw [absent] at known; cases known
  · rename_i oid o known
    obtain ⟨_, matching, h⟩ := bind_eq_ok.mp h
    obtain ⟨args, tool, revision⟩ := require_eq_ok.mp matching
    split at h
    · rename_i progress' resumes
      cases h
      rcases resume_eq_some resumes with ⟨value, rfl⟩ | ⟨rfl, running, awaits⟩
      · exact .returned value
      · exact .resumed known ⟨(Store.operationByKey_eq_some known).2, tool, revision, args⟩ running
          awaits
    · rename_i unstarted
      refine prepare_turn h fun oid' o' known' => ?_
      cases known.symm.trans known'
      exact unstarted

theorem Call.decide_turn {progress : Progress} {oid : OperationId} {o : Operation}
    {fingerprint : Hash} (h : c.decide g s now input oid o fingerprint = .ok progress) :
    c.Turn g s now input (.registered oid o fingerprint) progress s [] := by
  rw [decide] at h
  obtain ⟨decision, decided, h⟩ := bind_eq_ok.mp h
  split at h
  · cases h
    exact .refused _ rfl rfl rfl
  · rename_i permitted
    split at h
    · cases h
      exact .refused _ rfl rfl rfl
    · rename_i same
      cases h
      exact .decided decided permitted (not_not.mp same)

theorem Call.consult_turn {progress : Progress} {oid : OperationId} {o : Operation}
    {binding : ApprovalBinding} (h : c.consult s now input oid o binding = .ok (progress, s')) :
    c.Turn g s now input (.decided oid o binding .approval) progress s' [] := by
  rw [consult] at h
  obtain ⟨⟨iid, i, t⟩, found, h⟩ := bind_eq_ok.mp h
  have asks : c.Asks s now input.fresh oid binding i t := by
    rw [ask] at found
    split at found
    · rename_i iid' i' hfind
      cases found
      obtain ⟨hi, owner⟩ := Store.mem_interactionsOf.mp (List.mem_of_find?_eq_some hfind)
      exact .inl ⟨iid, hi, owner, by simpa using List.find?_some hfind, rfl⟩
    · exact .inr ⟨iid, found⟩
  obtain ⟨saved, hsaved, h⟩ := bind_eq_ok.mp h
  have hsaved := orThrow_eq_ok.mp hsaved
  split at h
  · cases h
    exact .asked _ asks
  · split at h
    · rename_i approves
      cases h
      exact .approved asks hsaved approves
    · cases h
      exact .unapproved asks

theorem Call.recheck_turn {progress : Progress} {oid : OperationId} {o : Operation}
    {binding : ApprovalBinding} (ordinary : c.name.waits = false)
    (h : c.recheck g s now input oid o binding = .ok progress) :
    c.Turn g s now input (.cleared oid o binding) progress s [] := by
  rw [recheck] at h
  obtain ⟨current, decided, h⟩ := bind_eq_ok.mp h
  split at h
  · cases h
    exact .refused _ rfl rfl rfl
  · rename_i permitted
    obtain ⟨permitted, revision⟩ := not_or.mp permitted
    obtain ⟨fingerprint, resources, h⟩ := bind_eq_ok.mp h
    split at h
    · cases h
      exact .refused _ rfl rfl rfl
    · rename_i same
      cases h
      exact .rechecked ordinary decided permitted (not_not.mp revision) (not_not.mp same ▸ resources)

theorem Call.grant_turn {progress : Progress} {events : List ToolEvent} {oid : OperationId}
    {o : Operation} {binding : ApprovalBinding} {policyRevision : Nat}
    (h : c.grant s now input oid o binding policyRevision = .ok (progress, s', events)) :
    c.Turn g s now input (.rechecked oid o binding policyRevision) progress s' events := by
  rw [grant] at h
  obtain ⟨t, started, h⟩ := bind_eq_ok.mp h
  obtain ⟨o', row, h⟩ := bind_eq_ok.mp h
  split at h
  · cases h
    exact .died started
  · cases h
    exact .granted started (Store.operation_eq_ok.mp row)

theorem Call.work_turn {progress : Progress} {events : List ToolEvent} {oid : OperationId}
    {o : Operation} {round : Nat} {stage : Stage}
    (h : c.work g s now input oid o round stage = .ok (progress, s', events)) :
    c.Turn g s now input (.working oid o round stage) progress s' events := by
  unfold work at h
  split at h
  · obtain ⟨_, valid, h⟩ := bind_eq_ok.mp h
    cases h
    exact .validated valid
  · cases h
    exact .sent
  · obtain ⟨⟨iid, t⟩, suspends, h⟩ := bind_eq_ok.mp h
    cases h
    exact .suspended suspends
  · cases h
    exact .concluded _ rfl rfl
  · cases h
    exact .concluded _ rfl rfl
  · cases h
    exact .concluded _ rfl rfl
  · cases h
    exact .pending rfl
  · cases h
    exact .pending rfl

theorem Call.answer_turn {progress : Progress} {oid : OperationId} {o : Operation}
    (h : c.answer s now input oid o = .ok (progress, s')) :
    c.Turn g s now input (.verified oid o) progress s' [] := by
  rw [answer] at h
  obtain ⟨⟨k, iid, i⟩, ready, h⟩ := bind_eq_ok.mp h
  dsimp only at h
  split at h
  · cases h
    exact .reawaited iid k.round
  · rename_i answered
    obtain ⟨t, sends, h⟩ := bind_eq_ok.mp h
    obtain ⟨o', row, h⟩ := bind_eq_ok.mp h
    cases h
    exact .answered ready (Bool.eq_false_iff.mpr answered) sends (Store.operation_eq_ok.mp row)

/-- What a call does in its phase. -/
theorem Call.advance_turn {progress : Progress} {events : List ToolEvent}
    (h : c.advance g s now input = .ok (progress, s', events)) :
    c.Turn g s now input c.phase progress s' events := by
  rw [advance] at h
  generalize c.phase = phase at h
  split at h
  · obtain ⟨⟨p, t⟩, step, rest⟩ := bind_eq_ok.mp h
    cases rest
    exact register_turn step
  · obtain ⟨p, step, rest⟩ := bind_eq_ok.mp h
    cases rest
    exact decide_turn step
  · obtain ⟨⟨p, t⟩, step, rest⟩ := bind_eq_ok.mp h
    cases rest
    exact consult_turn step
  · rename_i plain
    cases h
    exact .allowed fun approval => plain approval
  · split at h
    · rename_i waits
      obtain ⟨ledger, reserved, rest⟩ := bind_eq_ok.mp h
      cases rest
      exact .begun waits reserved
    · rename_i ordinary
      obtain ⟨p, step, rest⟩ := bind_eq_ok.mp h
      cases rest
      exact recheck_turn (Bool.eq_false_iff.mpr ordinary) step
  · split at h
    · cases h
      exact .returned _
    · cases h
      exact .concluded _ rfl rfl
    · cases h
    · cases h
    · cases h
      exact .pending rfl
    · cases h
      exact .pending rfl
  · exact grant_turn h
  · exact work_turn h
  · split at h
    · cases h
      exact .returned _
    · cases h
      exact .concluded _ rfl rfl
  · split at h
    · rename_i may
      cases h
      exact .verified may
    · cases h
      exact .concluded _ rfl rfl
  · split at h
    · cases h
      exact .concluded _ rfl rfl
    · rename_i answers
      cases h
      exact answer_turn (by assumption)
    · cases h
      exact .concluded _ rfl rfl
  · obtain ⟨t, finishes, h⟩ := bind_eq_ok.mp h
    cases h
    exact .closed finishes
  · obtain ⟨t, finishes, h⟩ := bind_eq_ok.mp h
    cases h
    exact .finished finishes
  · obtain ⟨ledger, settles, h⟩ := bind_eq_ok.mp h
    cases h
    exact .settled _ settles

/-! ## Rows of operations -/

/-- A row of an operation and one that comes later, or the same. -/
structure Operation.Later (o current : Operation) : Prop where
  key : current.key = o.key
  tool : current.toolId = o.toolId
  toolRevision : current.toolRevision = o.toolRevision
  argsHash : current.argsHash = o.argsHash
  args : current.args = o.args
  fingerprint : current.resourceFingerprint = o.resourceFingerprint
  revision : o.revision ≤ current.revision
  same : o.revision = current.revision → o = current

theorem Operation.Later.refl (o : Operation) : o.Later o where
  key := rfl
  tool := rfl
  toolRevision := rfl
  argsHash := rfl
  args := rfl
  fingerprint := rfl
  revision := Nat.le_refl _
  same _ := rfl

theorem Operation.Later.trans {o o₁ o₂ : Operation} (h : o.Later o₁) (h' : o₁.Later o₂) :
    o.Later o₂ where
  key := h'.key.trans h.key
  tool := h'.tool.trans h.tool
  toolRevision := h'.toolRevision.trans h.toolRevision
  argsHash := h'.argsHash.trans h.argsHash
  args := h'.args.trans h.args
  fingerprint := h'.fingerprint.trans h.fingerprint
  revision := h.revision.trans h'.revision
  same eq := by
    have le := h.revision
    have le' := h'.revision
    rw [h.same (by omega), h'.same (by omega)]

theorem Operation.Later.apply (patch : OperationPatch) (o : Operation) : o.Later (patch.apply o) where
  key := rfl
  tool := rfl
  toolRevision := rfl
  argsHash := rfl
  args := rfl
  fingerprint := rfl
  revision := Nat.le_succ _
  same eq := absurd eq (Nat.ne_of_lt (Nat.lt_succ_self _))

theorem Call.Matches.later {o o' : Operation} (h : c.Matches g o) (later : o.Later o') :
    c.Matches g o' where
  key := later.key.trans h.key
  tool := later.tool.trans h.tool
  revision := later.toolRevision.trans h.revision
  args := later.argsHash.trans h.args

variable {D : Discipline}

/-- An operation only ever changes to a later row. -/
theorem Write.operation_later (w : Write D now s s') {oid : OperationId} {o : Operation}
    (h : s.operations.get? oid = some o) : ∃ o', s'.operations.get? oid = some o' ∧ o.Later o' := by
  obtain ⟨o', ho', -⟩ := w.operation_stays h
  refine ⟨o', ho', ?_⟩
  cases w.operationEffect ho' with
  | kept ho =>
      cases h.symm.trans ho
      exact .refl o
  | added absent => cases h.symm.trans absent
  | moved ho | released ho | closed ho =>
      cases h.symm.trans ho
      exact .apply _ o

theorem Writes.operation_later (w : Writes D now s s') {oid : OperationId} {o : Operation}
    (h : s.operations.get? oid = some o) : ∃ o', s'.operations.get? oid = some o' ∧ o.Later o' := by
  induction w with
  | refl => exact ⟨o, h, .refl o⟩
  | tail _ w ih =>
      obtain ⟨o₁, ho₁, later₁⟩ := ih
      obtain ⟨o₂, ho₂, later₂⟩ := w.operation_later ho₁
      exact ⟨o₂, ho₂, later₁.trans later₂⟩

/-- A write registers an operation under a key of its own, or every operation was there. -/
theorem Write.operation_from (w : Write D now s s') :
    (∃ oid row, s.operations.insert? oid row = some s'.operations ∧
      (∀ id o, s.operations.get? id = some o → o.key ≠ row.key) ∧ D.scope.registers row) ∨
    ∀ oid o', s'.operations.get? oid = some o' → ∃ o, s.operations.get? oid = some o ∧ o.Later o' := by
  have changed : ∀ {oid o} {patch : OperationPatch}, s.operations.get? oid = some o →
      ∀ id o', (s.operations.modify oid patch.apply).get? id = some o' →
        ∃ o, s.operations.get? id = some o ∧ o.Later o' := by
    intro oid o patch ho id o' ho'
    rw [Table.get?_modify] at ho'
    split at ho'
    · rename_i same
      subst same
      rw [ho] at ho'
      cases ho'
      exact ⟨o, ho, .apply _ o⟩
    · exact ⟨o', ho', .refl o'⟩
  cases w with
  | operationAdded hinsert _ _ _ apart registers => exact .inl ⟨_, _, hinsert, apart, registers⟩
  | operationMoved ho => exact .inr (changed ho)
  | released _ _ ho => exact .inr (changed ho)
  | finished =>
      refine .inr fun oid o' ho' => ?_
      rw [Table.get?_mapRows] at ho'
      obtain ⟨o, ho, rfl⟩ := Option.map_eq_some_iff.mp ho'
      refine ⟨o, ho, ?_⟩
      rw [Operation.close]
      split
      · exact .apply _ o
      · exact .refl o
  | _ => exact .inr fun oid o' ho' => ⟨o', ho', .refl o'⟩

/-- No two operations have one key. -/
def Store.KeysApart (s : Store) : Prop :=
  ∀ oid oid' o o', s.operations.get? oid = some o → s.operations.get? oid' = some o' →
    o.key = o'.key → oid = oid'

theorem Store.KeysApart.write (apart : s.KeysApart) (w : Write D now s s') : s'.KeysApart := by
  intro oid oid' o o' ho ho' same
  rcases w.operation_from with ⟨id, row, hinsert, unused, -⟩ | from'
  · obtain ⟨-, rows⟩ := Table.insert?_eq_some hinsert
    rw [rows] at ho ho'
    split at ho <;> split at ho'
    · rename_i first second
      rw [first, second]
    · cases ho
      exact absurd same.symm (unused _ _ ho')
    · cases ho'
      exact absurd same (unused _ _ ho)
    · exact apart _ _ _ _ ho ho' same
  · obtain ⟨o₁, ho₁, later⟩ := from' _ _ ho
    obtain ⟨o₂, ho₂, later'⟩ := from' _ _ ho'
    exact apart _ _ _ _ ho₁ ho₂ (later.key.symm.trans (same.trans later'.key))

theorem reachable_keysApart {host : Host} {w : World} (h : (system host).Reachable w) :
    w.store.KeysApart :=
  reachable_of_free_writes (fun _ _ _ _ h => by cases h) (fun _ _ _ _ apart w => apart.write w) h

/-- An operation that has ended has its result. -/
def Store.Recorded (s : Store) : Prop :=
  ∀ oid o, s.operations.get? oid = some o → o.state.finished = true → o.result.isSome

theorem OperationPatch.Records.recorded {patch : OperationPatch} {o : Operation}
    (records : patch.Records) (before : o.state.finished = true → o.result.isSome)
    (finished : (patch.apply o).state.finished = true) : (patch.apply o).result.isSome := by
  cases hstate : patch.state with
  | none =>
      have same : (patch.apply o).state = o.state := by simp [apply, hstate]
      have kept : (patch.apply o).result = o.result := by simp [apply, records.kept hstate]
      rw [kept]
      exact before (same ▸ finished)
  | some state =>
      have new : (patch.apply o).state = state := by simp [apply, hstate]
      obtain ⟨result, hresult⟩ := records.ended state hstate (new ▸ finished)
      simp [apply, hresult]

theorem Store.Recorded.modify {oid : OperationId} {o : Operation} {patch : OperationPatch}
    (recorded : s.Recorded) (ho : s.operations.get? oid = some o) (records : patch.Records) :
    ∀ oid' o', (s.operations.modify oid patch.apply).get? oid' = some o' →
      o'.state.finished = true → o'.result.isSome := by
  intro oid' o' ho' finished
  rw [Table.get?_modify] at ho'
  split at ho'
  · rename_i same
    subst same
    rw [ho] at ho'
    cases ho'
    exact records.recorded (recorded _ o ho) finished
  · exact recorded oid' o' ho' finished

theorem Store.Recorded.write (recorded : s.Recorded) (w : Write D now s s') : s'.Recorded := by
  intro oid o' ho' finished
  cases w with
  | operationAdded hinsert _ prepared =>
      rw [(Table.insert?_eq_some hinsert).2] at ho'
      split at ho'
      · cases ho'
        rw [prepared] at finished
        cases finished
      · exact recorded oid o' ho' finished
  | operationMoved ho _ records => exact recorded.modify ho records oid o' ho' finished
  | released _ _ ho _ _ _ _ _ _ _ _ records => exact recorded.modify ho records oid o' ho' finished
  | finished =>
      rw [Table.get?_mapRows] at ho'
      obtain ⟨o, ho, rfl⟩ := Option.map_eq_some_iff.mp ho'
      rw [Operation.close] at finished ⊢
      split
      · rfl
      · rename_i kept
        rw [if_neg kept] at finished
        exact recorded oid o ho finished
  | _ => exact recorded oid o' ho' finished

theorem reachable_recorded {host : Host} {w : World} (h : (system host).Reachable w) :
    w.store.Recorded :=
  reachable_of_free_writes (fun _ _ h => by cases h) (fun _ _ _ _ recorded w => recorded.write w) h

/-! ## What a call knows -/

/-- What a call knows of its operation, whatever the others have done. -/
structure Call.Sound (g : Installation) (s : Store) (c : Call) : Prop where
  owner : c.key.runId = c.ctx.runId
  spec : ∃ version, g.host.registry c.name version = some c.spec
  target : ∀ oid, c.phase.target = some oid → ∃ o, s.operations.get? oid = some o ∧ c.Matches g o
  held : ∀ oid o, c.phase.target = some oid → c.phase.held = some o →
    ∃ current, s.operations.get? oid = some current ∧ o.Later current
  opens : c.phase.opens = true → ∀ o, c.phase.held = some o → o.state.unstarted = true

/-- What the others do does not matter. -/
theorem Call.Sound.writes (sound : c.Sound g s) (w : Writes D now s s') : c.Sound g s' where
  owner := sound.owner
  spec := sound.spec
  target oid h := by
    obtain ⟨o, ho, hmatches⟩ := sound.target oid h
    obtain ⟨o', ho', later⟩ := w.operation_later ho
    exact ⟨o', ho', hmatches.later later⟩
  held oid o h h' := by
    obtain ⟨current, hcurrent, later⟩ := sound.held oid o h h'
    obtain ⟨o', ho', later'⟩ := w.operation_later hcurrent
    exact ⟨o', ho', later.trans later'⟩
  opens := sound.opens

/-- The operation of a call is one of its run. -/
theorem Call.Sound.own (sound : c.Sound g s) {oid : OperationId} (h : c.phase.target = some oid) :
    s.ownOperation c.ctx oid = true := by
  obtain ⟨o, ho, hmatches⟩ := sound.target oid h
  have run : o.runId = c.ctx.runId := (congrArg OperationKey.runId hmatches.key).trans sound.owner
  simp [Store.ownOperation, ho, run]

theorem Call.Sound.read (sound : c.Sound g s) {oid : OperationId} {o : Operation}
    (h : c.phase.target = some oid) (h' : c.phase.held = some o) : s.readBefore oid o = true := by
  obtain ⟨current, hcurrent, later⟩ := sound.held oid o h h'
  simp only [Store.readBefore, hcurrent, Option.all_some, decide_eq_true_eq]
  exact later.same

/-- A turn is one transaction of the system, or none. -/
theorem Call.Turn.transaction {progress : Progress} {events : List ToolEvent}
    (sound : c.Sound g s) (turn : c.Turn g s now input c.phase progress s' events) :
    s' = s ∨ ∃ a : Action, (∀ later, a ≠ .tick later) ∧ a.admissible s = true ∧
      a.perform g.host s now = .ok s' := by
  generalize hphase : c.phase = phase at turn
  have own : ∀ oid, phase.target = some oid → s.ownOperation c.ctx oid = true :=
    fun oid h => sound.own (hphase ▸ h)
  have row : ∀ oid o, phase.target = some oid → phase.held = some o →
      (s.ownOperation c.ctx oid && s.readBefore oid o) = true := fun oid o h h' => by
    rw [own oid h, sound.read (hphase ▸ h) (hphase ▸ h')]
    rfl
  have asked : ∀ {oid binding i t}, c.Asks s now input.fresh oid binding i t → t = s ∨
      ∃ a : Action, (∀ later, a ≠ .tick later) ∧ a.admissible s = true ∧
        a.perform g.host s now = .ok t := by
    rintro oid binding i t (⟨-, -, -, -, rfl⟩ | ⟨iid, prepares⟩)
    · exact .inl rfl
    · refine .inr ⟨.prepareInteraction c.ctx (c.approvalRequest oid binding) input.fresh,
        fun _ h => (by cases h), rfl, ?_⟩
      simp only [Action.perform, prepares, ok_bind]
  cases turn with
  | @registered _ _ fingerprint _ prepares =>
      refine .inr ⟨.prepareOperation c.ctx (c.prepared g fingerprint) input.fresh,
        fun _ h => (by cases h), rfl, ?_⟩
      simp only [Action.perform, prepares, ok_bind]
  | asked _ asks => exact asked asks
  | approved asks => exact asked asks
  | unapproved asks => exact asked asks
  | @begun oid _ _ _ _ reserves =>
      refine .inr ⟨.reserve c.ctx.rootRunId (.tool oid) (Items.single .toolCalls 1),
        fun _ h => (by cases h), rfl, ?_⟩
      simp only [Action.perform, reserves, ok_bind]
  | @granted oid o _ binding policyRevision _ starts =>
      exact .inr ⟨.startOperation c.ctx oid o input.fresh binding policyRevision,
        fun _ h => (by cases h), row oid o rfl rfl, starts⟩
  | @died oid o binding policyRevision _ starts =>
      exact .inr ⟨.startOperation c.ctx oid o input.fresh binding policyRevision,
        fun _ h => (by cases h), row oid o rfl rfl, starts⟩
  | @suspended oid o _ pending _ _ suspends =>
      refine .inr ⟨.suspendExchange c.ctx oid o pending input.fresh, fun _ h => (by cases h),
        row oid o rfl rfl, ?_⟩
      simp only [Action.perform, suspends, ok_bind]
  | @answered oid o _ k _ _ _ _ _ sends =>
      exact .inr ⟨.sendExchange c.ctx oid o k, fun _ h => (by cases h), row oid o rfl rfl, sends⟩
  | @closed oid result _ finishes =>
      exact .inr ⟨.finishOperation c.ctx oid result, fun _ h => (by cases h), own oid rfl, finishes⟩
  | @finished oid result _ finishes =>
      exact .inr ⟨.finishOperation c.ctx oid result, fun _ h => (by cases h), own oid rfl, finishes⟩
  | @settled oid result ledger _ settles =>
      refine .inr ⟨.settleReservation (.tool oid)
        (if result.status = .unknown then none else some (Amount.single .toolCalls 1)),
        fun _ h => (by cases h), rfl, ?_⟩
      simp only [Action.perform, settles, ok_bind]
  | _ => exact .inl rfl

theorem World.next_of_perform {host : Host} {w : World} {a : Action} {store : Store}
    (plain : ∀ later, a ≠ .tick later) (admissible : a.admissible w.store = true)
    (h : a.perform host w.store w.now = .ok store) : w.next host a = some { w with store } := by
  unfold World.next
  split
  · exact absurd rfl (plain _)
  · rw [if_pos admissible, h]

/-- A turn is a step of the system, or none. -/
theorem Call.Turn.step {base : World} {progress : Progress} {events : List ToolEvent}
    (sound : c.Sound g base.store)
    (turn : c.Turn g base.store base.now input c.phase progress s' events) :
    s' = base.store ∨ ∃ a, (system g.host).step base a { base with store := s' } :=
  (turn.transaction sound).imp_right fun ⟨a, plain, admissible, performs⟩ =>
    ⟨a, World.next_of_perform plain admissible performs⟩

/-- A call in another phase, about an operation it knows. -/
theorem Call.Sound.become (sound : c.Sound g s) {phase : Phase}
    (target : ∀ oid, phase.target = some oid → ∃ o, s.operations.get? oid = some o ∧ c.Matches g o)
    (held : ∀ oid o, phase.target = some oid → phase.held = some o →
      ∃ current, s.operations.get? oid = some current ∧ o.Later current)
    (opens : phase.opens = true → ∀ o, phase.held = some o → o.state.unstarted = true) :
    ({ c with phase } : Call).Sound g s where
  owner := sound.owner
  spec := sound.spec
  target oid h := by
    obtain ⟨o, ho, hmatches⟩ := target oid h
    exact ⟨o, ho, hmatches.key, hmatches.tool, hmatches.revision, hmatches.args⟩
  held := held
  opens := opens

/-- A call in another phase, about the same operation. -/
theorem Call.Sound.keep (sound : c.Sound g s) {phase phase' : Phase} (now : c.phase = phase')
    (target : phase.target = phase'.target) (held : phase.held = none ∨ phase.held = phase'.held)
    (opens : phase.opens = true → phase'.opens = true) : ({ c with phase } : Call).Sound g s := by
  subst now
  refine sound.become (fun oid h => sound.target oid (target ▸ h)) (fun oid o h h' => ?_)
    fun h o h' => ?_
  · rcases held with none | same
    · cases none.symm.trans h'
    · exact sound.held oid o (target ▸ h) (same ▸ h')
  · rcases held with none | same
    · cases none.symm.trans h'
    · exact sound.opens (opens h) o (same ▸ h')

/-- An operation that is registered again has not started. -/
theorem Call.resume_eq_none {oid : OperationId} {o : Operation} (h : c.resume oid o = none)
    (recorded : o.state.finished = true → o.result.isSome) : o.state.unstarted = true := by
  cases hstate : o.state with
  | prepared | authorized => rfl
  | running | unknown => cases hresult : o.result <;> simp [resume, resumeStarted, hstate, hresult,
      OpState.finished] at h <;> split at h <;> cases h
  | succeeded | failed | cancelled =>
      obtain ⟨result, hresult⟩ := Option.isSome_iff_exists.mp (recorded (by rw [hstate]; rfl))
      simp [resume, hstate, hresult, OpState.finished] at h

/-- The registered operation is the one the call asks for, and it has not started. -/
theorem Call.registered_sound {oid : OperationId} {o : Operation} {fingerprint : Hash}
    (recorded : s.Recorded) (owner : c.key.runId = c.ctx.runId)
    (h : s.prepareOperation c.ctx (c.prepared g fingerprint) input.fresh now = .ok (oid, o, s'))
    (unstarted : s.operationByKey c.key = some (oid, o) → c.resume oid o = none) :
    s'.operations.get? oid = some o ∧ c.Matches g o ∧ o.state.unstarted = true := by
  have key : (⟨c.ctx.runId, c.key.messageId, c.key.toolCallId⟩ : OperationKey) = c.key := by
    rw [← owner]
  obtain ⟨-, ⟨known, rfl, args, revision, tool⟩ | ⟨-, rfl, rfl, operations, hinsert, rfl⟩⟩ :=
    Store.prepareOperation_eq_ok h
  · replace known : s'.operationByKey c.key = some (oid, o) := key ▸ known
    obtain ⟨ho, same⟩ := Store.operationByKey_eq_some known
    exact ⟨ho, ⟨same, tool, revision, args⟩, resume_eq_none (unstarted known) (recorded oid o ho)⟩
  · refine ⟨?_, ⟨key, rfl, rfl, rfl⟩, rfl⟩
    show operations.get? input.fresh = _
    rw [(Table.insert?_eq_some hinsert).2, if_pos rfl]

/-- A call that goes on knows its operation. -/
theorem Call.Turn.sound {phase : Phase} {events : List ToolEvent} (recorded : s.Recorded)
    (sound : c.Sound g s) (writes : Writes D now s s')
    (turn : c.Turn g s now input c.phase (.next phase) s' events) :
    ({ c with phase } : Call).Sound g s' := by
  have after := sound.writes writes
  generalize hphase : c.phase = phase' at turn
  have reread : ∀ {oid o'}, phase'.target = some oid → s'.operations.get? oid = some o' →
      ∀ round, ({ c with phase := .working oid o' round .ready } : Call).Sound g s' := by
    intro oid o' htarget ho' round
    refine after.become (fun oid' h => ?_) (fun oid' o h h' => ?_) fun h => by cases h
    · cases h
      exact after.target oid (hphase ▸ htarget)
    · cases h
      cases h'
      exact ⟨o', ho', .refl o'⟩
  cases turn with
  | @resumed oid o known hmatches =>
      obtain ⟨ho, -⟩ := Store.operationByKey_eq_some known
      refine after.become (fun oid' h => ?_) (fun oid' o' h h' => ?_) fun h => by cases h
      · cases h
        exact ⟨o, ho, hmatches⟩
      · cases h
        cases h'
        exact ⟨o, ho, .refl o⟩
  | @registered oid o _ _ prepares unstarted =>
      obtain ⟨ho, hmatches, open'⟩ := registered_sound recorded sound.owner prepares unstarted
      refine after.become (fun oid' h => ?_) (fun oid' o' h h' => ?_) fun _ o' h' => ?_
      · cases h
        exact ⟨o, ho, hmatches⟩
      · cases h
        cases h'
        exact ⟨o, ho, .refl o⟩
      · cases h'
        exact open'
  | decided => exact after.keep hphase rfl (.inr rfl) id
  | refused _ _ target => exact after.keep hphase target.symm (.inl rfl) fun h => by cases h
  | approved => exact after.keep hphase rfl (.inr rfl) id
  | unapproved => exact after.keep hphase rfl (.inl rfl) fun h => by cases h
  | allowed => exact after.keep hphase rfl (.inr rfl) id
  | begun => exact after.keep hphase rfl (.inl rfl) fun h => by cases h
  | rechecked => exact after.keep hphase rfl (.inr rfl) id
  | granted _ ho' => exact reread rfl ho' 0
  | pending => exact after.keep hphase rfl (.inr rfl) id
  | validated => exact after.keep hphase rfl (.inr rfl) fun h => by cases h
  | sent => exact after.keep hphase rfl (.inr rfl) fun h => by cases h
  | suspended => exact after.keep hphase rfl (.inl rfl) fun h => by cases h
  | concluded _ _ target => exact after.keep hphase target.symm (.inl rfl) fun h => by cases h
  | verified => exact after.keep hphase rfl (.inr rfl) fun h => by cases h
  | reawaited => exact after.keep hphase rfl (.inl rfl) fun h => by cases h
  | @answered _ _ _ k _ _ _ _ _ _ ho' => exact reread rfl ho' k.round
  | finished => exact after.keep hphase rfl (.inl rfl) fun h => by cases h

/-! ## What a turn does to the operations -/

theorem finishOperation_eq_ok {ctx : ExecutionContext} {oid : OperationId} {result : ToolResult}
    (h : finishOperation s ctx oid result now = .ok s') :
    ∃ o saved events, s.operations.get? oid = some o ∧ s.assertFence ctx now true = .ok () ∧
      s' = { s with
        operations := s.operations.modify oid
          (OperationPatch.apply { state := some result.status.opState, result := some (some saved) })
        events } := by
  simp only [finishOperation, bind_eq_ok, Store.operation_eq_ok] at h
  obtain ⟨o, ho, t, hupdate, h⟩ := h
  obtain ⟨fence, -, rfl⟩ := Store.updateOperation_eq_ok hupdate
  cases h
  exact ⟨o, _, _, ho, fence, rfl⟩

/-- The operation takes the state of its result. -/
theorem finishOperation_state {ctx : ExecutionContext} {oid : OperationId} {result : ToolResult}
    (h : finishOperation s ctx oid result now = .ok s') :
    ∃ o, s'.operations.get? oid = some o ∧ o.state = result.status.opState := by
  obtain ⟨o, saved, events, row, -, rfl⟩ := finishOperation_eq_ok h
  refine ⟨OperationPatch.apply { state := some result.status.opState, result := some (some saved) } o,
    ?_, rfl⟩
  rw [Table.get?_modify_self, row]
  rfl

/-- The round that comes after those of an operation. -/
def Operation.nextRound (o : Operation) : Nat :=
  (o.metadata.protocolContinuation.map Continuation.round).getD 0 + 1

theorem suspendExchange_eq_ok {ctx : ExecutionContext} {oid : OperationId} {o : Operation}
    {pending : PendingInput} {fresh iid : InteractionId}
    (h : suspendExchange s ctx oid o pending fresh now = .ok (iid, s')) :
    ∃ current k interactions, s.operations.get? oid = some current ∧
      current.revision = o.revision ∧ k.modernMrtr = true ∧ k.status = .awaitingInput ∧
      k.round = o.nextRound ∧ k.interactionId = some iid ∧
      s' = { s with
        interactions
        operations := s.operations.modify oid (OperationPatch.apply
          { metadata := some { current.metadata with protocolContinuation := some k } }) } := by
  simp only [suspendExchange, bind_eq_ok, require_eq_ok, Store.operation_eq_ok, exists_const] at h
  obtain ⟨-, current, hcurrent, same, ⟨iid', i, t⟩, hprepare, u, hupdate, h⟩ := h
  cases h
  obtain ⟨interactions, rfl⟩ := prepareInteraction_frame hprepare
  obtain ⟨-, -, rfl⟩ := Store.updateOperation_eq_ok hupdate
  exact ⟨current, _, interactions, hcurrent, same, rfl, rfl, rfl, rfl, rfl⟩

theorem sendExchange_eq_ok {ctx : ExecutionContext} {oid : OperationId} {o : Operation}
    {k : Continuation} (h : sendExchange s ctx oid o k now = .ok s') :
    ∃ current, s.operations.get? oid = some current ∧ current.revision = o.revision ∧
      s' = { s with
        operations := s.operations.modify oid (OperationPatch.apply
          { metadata := some
              { o.metadata with protocolContinuation := some { k with status := .sending } } }) } := by
  simp only [sendExchange, bind_eq_ok, require_eq_ok, Store.operation_eq_ok, exists_const] at h
  obtain ⟨current, hcurrent, same, hupdate⟩ := h
  obtain ⟨-, -, rfl⟩ := Store.updateOperation_eq_ok hupdate
  exact ⟨current, hcurrent, same, rfl⟩

/-- How a turn changes the operations. -/
inductive Call.Changes (g : Installation) (c : Call) (s : Store) :
    Phase → Table OperationId Operation → Prop where
  | same {phase : Phase} : Changes g c s phase s.operations
  | registered {oid : OperationId} {o : Operation} {operations : Table OperationId Operation} :
      s.operations.insert? oid o = some operations → c.Matches g o → o.args = c.args →
      o.state = .prepared → o.metadata = {} → (∀ id o', s.operations.get? id = some o' → o'.key ≠ o.key) →
      Changes g c s .entered operations
  | started {oid : OperationId} {o : Operation} {binding : ApprovalBinding} {policyRevision : Nat}
      (gid : GrantId) :
      s.operations.get? oid = some o → o.state.unstarted = true →
      Changes g c s (.rechecked oid o binding policyRevision)
        ((s.operations.modify oid (OperationPatch.apply { state := some .authorized })).modify oid
          (Store.startPatch c.ctx gid).apply)
  | noted {phase : Phase} {oid : OperationId} {patch : OperationPatch} :
      phase.target = some oid → phase.opens = false →
      (∀ state, patch.state = some state → state.unstarted = false ∧ state ≠ .running) →
      Changes g c s phase (s.operations.modify oid patch.apply)

theorem Call.Asks.operations {oid : OperationId} {binding : ApprovalBinding} {i : Interaction}
    (asks : c.Asks s now input.fresh oid binding i s') : ∃ interactions, s' = { s with interactions } := by
  rcases asks with ⟨-, -, -, -, rfl⟩ | ⟨iid, prepares⟩
  · exact ⟨s'.interactions, rfl⟩
  · exact prepareInteraction_frame prepares

/-- A call that starts its operation starts the row it has read. -/
theorem Call.Sound.current (sound : c.Sound g s) {oid : OperationId} {o current : Operation}
    (h : c.phase.target = some oid) (h' : c.phase.held = some o)
    (hcurrent : s.operations.get? oid = some current) (same : current.revision = o.revision) :
    current = o :=
  (Store.readBefore_eq_true (sound.read h h') hcurrent same).symm

theorem Call.Sound.starts (sound : c.Sound g s) {oid : OperationId} {o : Operation}
    {binding : ApprovalBinding} {policyRevision : Nat} {gid : GrantId}
    (phase : c.phase = .rechecked oid o binding policyRevision)
    (h : startOperation s c.ctx oid o gid binding policyRevision now = .ok s') :
    s.operations.get? oid = some o ∧ o.state.unstarted = true ∧
      s'.operations =
        (s.operations.modify oid (OperationPatch.apply { state := some .authorized })).modify oid
          (Store.startPatch c.ctx gid).apply := by
  obtain ⟨current, grants, ledger, hcurrent, same, -, -, -, -, rfl⟩ := startOperation_eq_ok h
  cases sound.current (by rw [phase]; rfl) (by rw [phase]; rfl) hcurrent same
  exact ⟨hcurrent, sound.opens (by rw [phase]; rfl) _ (by rw [phase]; rfl), rfl⟩

theorem Call.Turn.changes {progress : Progress} {events : List ToolEvent} (sound : c.Sound g s)
    (turn : c.Turn g s now input c.phase progress s' events) :
    c.Changes g s c.phase s'.operations := by
  generalize hphase : c.phase = phase at turn
  have starts : ∀ {oid o binding policyRevision t}, phase = .rechecked oid o binding policyRevision →
      startOperation s c.ctx oid o input.fresh binding policyRevision now = .ok t →
      c.Changes g s phase t.operations := by
    rintro oid o binding policyRevision t rfl starts
    obtain ⟨ho, unstarted, changed⟩ := sound.starts hphase starts
    rw [changed]
    exact .started _ ho unstarted
  have finishes : ∀ {oid result t}, phase.target = some oid → phase.opens = false →
      finishOperation s c.ctx oid result now = .ok t → c.Changes g s phase t.operations := by
    intro oid result t target closed finishes
    obtain ⟨-, saved, events, -, -, rfl⟩ := finishOperation_eq_ok finishes
    refine .noted target closed fun state hstate => ?_
    cases hstate
    cases result.status <;> exact ⟨rfl, by simp [ResultStatus.opState]⟩
  cases turn with
  | registered prepares =>
      obtain ⟨-, ⟨-, rfl, -⟩ | ⟨unused, rfl, rfl, operations, hinsert, rfl⟩⟩ :=
        Store.prepareOperation_eq_ok prepares
      · exact .same
      · refine .registered hinsert ⟨?_, rfl, rfl, rfl⟩ rfl rfl rfl (Store.operationByKey_eq_none unused)
        show (⟨c.ctx.runId, _, _⟩ : OperationKey) = _
        rw [← sound.owner]
        rfl
  | asked _ asks | approved asks | unapproved asks =>
      obtain ⟨interactions, rfl⟩ := asks.operations
      exact .same
  | granted start => exact starts rfl start
  | died start => exact starts rfl start
  | suspended suspends =>
      obtain ⟨current, k, interactions, -, -, -, -, -, -, rfl⟩ := suspendExchange_eq_ok suspends
      exact .noted rfl rfl fun state hstate => by cases hstate
  | answered _ _ sends =>
      obtain ⟨current, -, -, rfl⟩ := sendExchange_eq_ok sends
      exact .noted rfl rfl fun state hstate => by cases hstate
  | closed finish => exact finishes rfl rfl finish
  | finished finish => exact finishes rfl rfl finish
  | _ => exact .same

/-! ## Steps of the gateway -/

namespace GatewayWorld

variable {w w' : GatewayWorld}

/-- Every call of the world knows its operation. -/
def Sound (g : Installation) (w : GatewayWorld) : Prop :=
  ∀ id c, w.calls id = some c → c.Sound g w.base.store

/-- What a step of the gateway is. -/
inductive Stepped (g : Installation) (w : GatewayWorld) : GatewayAction → GatewayWorld → Prop where
  | transacted {a : Action} {base : World} :
      a.outside = true → w.base.next g.host a = some base →
      Stepped g w (.transact a) { w with base, trace := a.attested w.base.store ++ w.trace }
  | declined {id : CallId} {ctx : ExecutionContext} {key : OperationKey} {name : ToolId} {args : Json}
      {registered : Registered} :
      w.calls id = none → Stepped g w (.enter id ctx key name args registered) w
  | entered {id : CallId} {ctx : ExecutionContext} {key : OperationKey} {name : ToolId} {args : Json}
      {registered : Registered} {version : String} {spec : ToolSpec} :
      key.runId = ctx.runId → g.host.registry name version = some spec →
      Stepped g w (.enter id ctx key name args registered)
        { w with calls := w.withCall id (some ⟨ctx, key, name, args, spec, .entered⟩) }
  | turned {id : CallId} {input : Input} {c : Call} {progress : Progress} {store : Store}
      {events : List ToolEvent} :
      w.calls id = some c →
      c.Turn g w.base.store w.base.now input c.phase progress store events →
      Stepped g w (.turn id input)
        { base := { w.base with store }, calls := w.withCall id (afterPhase c progress)
          trace := events ++ w.trace }
  | left {id : CallId} : Stepped g w (.leave id) { w with calls := w.withCall id none }

theorem enter_eq_ok {ctx : ExecutionContext} {key : OperationKey} {name : ToolId} {args : Json}
    {registered : Registered} {spec : ToolSpec}
    (h : g.enter registered s ctx key name args now = .ok (.inr spec)) :
    key.runId = ctx.runId ∧ ∃ version, g.host.registry name version = some spec := by
  simp only [Installation.enter, bind_eq_ok, require_eq_ok, exists_const] at h
  obtain ⟨same, _, -, version, _, spec', found, -, h⟩ := h
  split at h
  · cases h
    exact ⟨same, version, Host.tool_eq_ok found⟩
  · cases h

theorem next_stepped {a : GatewayAction} (h : w.next g a = some w') : w.Stepped g a w' := by
  cases a with
  | transact a =>
      rw [next] at h
      split at h
      · rename_i outside
        obtain ⟨base, hnext, rfl⟩ := Option.map_eq_some_iff.mp h
        exact .transacted outside hnext
      · cases h
  | enter id ctx key name args registered =>
      rw [next] at h
      split at h
      · cases h
      · rename_i free
        obtain ⟨entry, hentry, h⟩ := Option.map_eq_some_iff.mp h
        cases entry with
        | inl result =>
            subst h
            exact .declined (Option.not_isSome_iff_eq_none.mp free)
        | inr spec =>
            subst h
            obtain ⟨same, version, registered⟩ := enter_eq_ok (toOption_eq_some.mp hentry)
            exact .entered same registered
  | turn id input =>
      obtain ⟨c, hc, h⟩ := Option.bind_eq_some_iff.mp h
      obtain ⟨⟨progress, store, events⟩, hturn, h⟩ := Option.bind_eq_some_iff.mp h
      cases h
      exact .turned hc (c.advance_turn (toOption_eq_some.mp hturn))
  | leave id =>
      cases h
      exact .left

theorem withCall_eq_some {id id' : CallId} {call : Option Call} {c : Call}
    (h : w.withCall id call id' = some c) : id' = id ∧ call = some c ∨ id' ≠ id ∧ w.calls id' = some c := by
  rw [withCall] at h
  split at h
  · rename_i same
    exact .inl ⟨same, h⟩
  · rename_i other
    exact .inr ⟨other, h⟩

/-- A step is a step of the system of transactions, or changes nothing there. -/
theorem Stepped.base {a : GatewayAction} (sound : w.Sound g) (step : w.Stepped g a w') :
    w'.base = w.base ∨ ∃ b, (system g.host).step w.base b w'.base := by
  cases step with
  | transacted _ hnext => exact .inr ⟨_, hnext⟩
  | turned hc turn =>
      rcases turn.step (sound _ _ hc) with same | step
      · exact .inl (by rw [same])
      · exact .inr step
  | _ => exact .inl rfl

theorem Stepped.writes {a : GatewayAction} (reach : (system g.host).Reachable w.base)
    (sound : w.Sound g) (step : w.Stepped g a w') :
    Writes {} w.base.now w.base.store w'.base.store := by
  rcases step.base sound with same | ⟨b, step⟩
  · rw [same]
    exact .refl
  · exact (step_writes reach (Discipline.meets_free ..) step).2

/-- Every call goes on knowing its operation. -/
theorem Sound.step {a : GatewayAction} (reach : (system g.host).Reachable w.base)
    (sound : w.Sound g) (step : w.Stepped g a w') : w'.Sound g := by
  have writes := step.writes reach sound
  intro id' c' hc'
  cases step with
  | transacted | declined => exact (sound id' c' hc').writes writes
  | entered same registered =>
      rcases withCall_eq_some hc' with ⟨-, h⟩ | ⟨-, h⟩
      · cases h
        exact ⟨same, ⟨_, registered⟩, fun _ h => (by cases h), fun _ _ h => (by cases h),
          fun h => (by cases h)⟩
      · exact sound id' c' h
  | @turned id input c progress store events hc turn =>
      rcases withCall_eq_some hc' with ⟨-, h⟩ | ⟨-, h⟩
      · cases progress with
        | next phase =>
            cases h
            exact turn.sound (reachable_recorded reach) (sound id c hc) writes
        | done | gone => cases h
      · exact (sound id' c' h).writes writes
  | left =>
      rcases withCall_eq_some hc' with ⟨-, h⟩ | ⟨-, h⟩
      · cases h
      · exact sound id' c' h

end GatewayWorld

/-- The gateway refines the system of transactions, and every call knows its operation. -/
theorem gateway_base {w : GatewayWorld} (h : (gatewaySystem g).Reachable w) :
    (system g.host).Reachable w.base ∧ w.Sound g := by
  refine h.invariant (I := fun w => (system g.host).Reachable w.base ∧ w.Sound g)
    (fun w start => ?_) fun w a w' _ ih step => ?_
  · obtain ⟨store, calls, -⟩ := start
    refine ⟨.init store, fun id c hc => ?_⟩
    rw [calls] at hc
    cases hc
  · have stepped := GatewayWorld.next_stepped step
    refine ⟨?_, ih.2.step ih.1 stepped⟩
    rcases stepped.base ih.2 with same | ⟨b, hb⟩
    · exact same ▸ ih.1
    · exact ih.1.step hb

/-! ## A small installation with tools -/

namespace Sample

/-- The records of a policy under which no tool needs an approval. -/
def trusting : PolicyRecord := { approvalEffects := some ∅ }

def layers : Layers where
  globalPolicy := some trusting
  workspace _ _ := some trusting
  named _ := none
  digest _ _ _ := 0

def tools : Installation where
  host := { host with
    registry := fun id version =>
      if id.waits = true then some { id, version } else host.registry id version }
  snapshots _ := { policy := some { trusting.fill.freeze with revision := some 1 }
                   tools := [(.named "mcp", "1")] }
  accepts _ _ := true
  target _ := none
  keyed _ _ _ h := by
    dsimp only at h
    split at h <;> cases h <;> exact ⟨rfl, rfl⟩
  waiters _ _ _ h waits := by
    dsimp only at h
    rw [if_pos waits] at h
    cases h
    rfl

def surroundings : Surroundings where
  layers := layers
  fingerprint _ _ _ := .ok "file"

def gatewayStart : GatewayWorld := { base := start }

/-- Run `10` is claimed and calls its tool. -/
def called : List GatewayAction :=
  (submitted ++ [Action.claim ⟨1, 1⟩ 20]).map .transact ++
    [.enter 1 (context 20 1) ⟨10, 1, 1⟩ (.named "mcp") "args" prepared]

/-- The call goes through the next phases. -/
def turns (phases : Nat) : List GatewayAction :=
  List.replicate phases (.turn 1 { env := surroundings, fresh := 100 })

theorem gatewayReachable {actions : List GatewayAction} {w : GatewayWorld}
    (h : System.runs (GatewayWorld.next tools) gatewayStart actions = some w) :
    (gatewaySystem tools).Reachable w :=
  have init : (gatewaySystem tools).Reachable gatewayStart :=
    .init (show start.store = .initial ∧ _ = _ ∧ _ = _ from ⟨rfl, rfl, rfl⟩)
  System.Reachable.runs init h

end Sample

end MiHarness

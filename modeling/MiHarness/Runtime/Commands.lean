import MiHarness.Runtime.Selection

/-!
# The records of a selection

The commands of a run carry the revisions of its control, each once, so that a revision names what was
desired.  At most the command of the control is requested.  `Commanded` says this of the commands of a
run and `Served` of its bindings; a transaction touches the records of one run, and a frame lemma
keeps what is said of the others.
-/

namespace MiHarness

open Library

variable {m : Models} {s : Store} {t t' u : ModelTables} {rid : RunId} {now : Time}
  {first : ProfileRef} {c c' : ModelControl}

/-! ## The records of a run -/

namespace ModelTables

/-- A command of a run. -/
def Command (t : ModelTables) (rid : RunId) (id : CommandId) (command : ModelCommand) : Prop :=
  t.commands.get? id = some command ∧ command.runId = rid

/-- The bindings of a run, oldest first. -/
def bindingsOf (t : ModelTables) (rid : RunId) : List ModelCallBinding :=
  (t.bindings.select fun _ b => b.runId = rid).map Prod.snd

/-- What was desired at a revision: the first profile, or that of the command. -/
def Desired (t : ModelTables) (first : ProfileRef) (rid : RunId) (revision : Nat)
    (ref : ProfileRef) : Prop :=
  (revision = 0 ∧ ref = first) ∨
    ∃ id command, t.Command rid id command ∧ command.controlRevision = revision ∧
      command.profileRef = ref

/-- The commands of a run and its control. -/
structure Commanded (t : ModelTables) (first : ProfileRef) (rid : RunId) (c : ModelControl) :
    Prop where
  desired : t.Desired first rid c.controlRevision c.desiredProfileRef
  bounded : ∀ id command, t.Command rid id command →
    1 ≤ command.controlRevision ∧ command.controlRevision ≤ c.controlRevision
  distinct : ∀ id id' command command', t.Command rid id command → t.Command rid id' command' →
    command.controlRevision = command'.controlRevision → id = id'
  current : ∀ id, c.commandId = some id → ∃ command, t.Command rid id command
  requested : ∀ id command, t.Command rid id command → command.status = .requested →
    c.commandId = some id ∧ c.status = .requested

/-- The bindings of a run and its control. -/
structure Served (t : ModelTables) (first : ProfileRef) (rid : RunId) (c : ModelControl) : Prop where
  effective : c.effectiveProfileRef =
    ((t.bindingsOf rid).getLast?.map ModelCallBinding.profileRef).getD first
  bound : ∀ b ∈ t.bindingsOf rid, t.Desired first rid b.controlRevision b.profileRef

theorem Commanded.congr (h : t.Commanded first rid c) (same : u.commands = t.commands) :
    u.Commanded first rid c := by
  obtain ⟨controls, commands, bindings, preferences⟩ := u
  cases same
  exact ⟨h.desired, h.bounded, h.distinct, h.current, h.requested⟩

/-- A revision names one profile. -/
theorem Commanded.unique (h : t.Commanded first rid c) {revision : Nat} {ref ref' : ProfileRef}
    (desired : t.Desired first rid revision ref) (desired' : t.Desired first rid revision ref') :
    ref = ref' := by
  rcases desired with ⟨zero, rfl⟩ | ⟨id, command, own, at_, rfl⟩
  · rcases desired' with ⟨-, rfl⟩ | ⟨id', command', own', at_', rfl⟩
    · rfl
    · have positive := (h.bounded id' command' own').1
      omega
  · rcases desired' with ⟨zero, rfl⟩ | ⟨id', command', own', at_', rfl⟩
    · have positive := (h.bounded id command own).1
      omega
    · obtain rfl := h.distinct id id' command command' own own' (at_.trans at_'.symm)
      cases own.1.symm.trans own'.1
      rfl

/-! ## Transactions touch one run -/

/-- Only records of one run change, and a command keeps its revision and its profile. -/
structure Touches (t t' : ModelTables) (rid : RunId) : Prop where
  controls : ∀ other, other ≠ rid → t'.controls.get? other = t.controls.get? other
  commands : ∀ other, other ≠ rid → ∀ id command,
    t'.Command other id command ↔ t.Command other id command
  kept : ∀ id command, t.Command rid id command → ∃ command', t'.Command rid id command' ∧
    command'.controlRevision = command.controlRevision ∧ command'.profileRef = command.profileRef
  bindings : ∀ other, other ≠ rid → t'.bindingsOf other = t.bindingsOf other

theorem Touches.refl : t.Touches t rid where
  controls _ _ := rfl
  commands _ _ _ _ := Iff.rfl
  kept _ command h := ⟨command, h, rfl, rfl⟩
  bindings _ _ := rfl

theorem Touches.trans (h : t.Touches t' rid) (k : t'.Touches u rid) : t.Touches u rid where
  controls other apart := (k.controls other apart).trans (h.controls other apart)
  commands other apart id command := (k.commands other apart id command).trans
    (h.commands other apart id command)
  kept id command own := by
    obtain ⟨command', own', revision, profile⟩ := h.kept id command own
    obtain ⟨command'', own'', revision', profile'⟩ := k.kept id command' own'
    exact ⟨command'', own'', revision'.trans revision, profile'.trans profile⟩
  bindings other apart := (k.bindings other apart).trans (h.bindings other apart)

/-- What was desired stays so. -/
theorem Touches.desired (h : t.Touches t' rid) {other : RunId} {revision : Nat} {ref : ProfileRef}
    (desired : t.Desired first other revision ref) : t'.Desired first other revision ref := by
  rcases desired with first | ⟨id, command, own, rfl, rfl⟩
  · exact .inl first
  · by_cases same : other = rid
    · subst same
      obtain ⟨command', own', revision, profile⟩ := h.kept id command own
      exact .inr ⟨id, command', own', revision, profile⟩
    · exact .inr ⟨id, command, (h.commands other same id command).mpr own, rfl, rfl⟩

theorem Touches.commanded (h : t.Touches t' rid) {other : RunId} (apart : other ≠ rid)
    (before : t.Commanded first other c) : t'.Commanded first other c where
  desired := h.desired before.desired
  bounded id command own := before.bounded id command ((h.commands other apart id command).mp own)
  distinct id id' command command' own own' :=
    before.distinct id id' command command' ((h.commands other apart id command).mp own)
      ((h.commands other apart id' command').mp own')
  current id named := by
    obtain ⟨command, own⟩ := before.current id named
    exact ⟨command, (h.commands other apart id command).mpr own⟩
  requested id command own :=
    before.requested id command ((h.commands other apart id command).mp own)

theorem Touches.served (h : t.Touches t' rid) {other : RunId}
    (same : t'.bindingsOf other = t.bindingsOf other) (before : t.Served first other c)
    (effective : c'.effectiveProfileRef = c.effectiveProfileRef) : t'.Served first other c' where
  effective := by rw [effective, same, before.effective]
  bound b hb := h.desired (before.bound b (same ▸ hb))

/-- The control of a run is put. -/
theorem Touches.control (t : ModelTables) (rid : RunId) (c : ModelControl) :
    t.Touches { t with controls := t.controls.put rid c } rid where
  controls other apart := by
    rw [Table.get?_put, if_neg apart]
  commands _ _ _ _ := Iff.rfl
  kept _ command own := ⟨command, own, rfl, rfl⟩
  bindings _ _ := rfl

end ModelTables

/-! ## Commands -/

namespace ModelSelection

open ModelTables

theorem control_eq_ok : control m s t rid = .ok c ↔
    ∃ run, s.runs.get? rid = some run ∧ c = t.controlOf m rid run := by
  simp only [control, bind_eq_ok, Store.run_eq_ok, Except.ok.injEq]
  exact ⟨fun ⟨run, hrun, same⟩ => ⟨run, hrun, same.symm⟩, fun ⟨run, hrun, same⟩ => ⟨run, hrun, same.symm⟩⟩

theorem putCommand_eq_ok {id : Option CommandId} {change : ModelCommand → ModelCommand} :
    putCommand t id change = .ok t' ↔ (id = none ∧ t' = t) ∨ ∃ i command, id = some i ∧
      t.commands.get? i = some command ∧
      t' = { t with commands := t.commands.put i (change command) } := by
  cases id with
  | none =>
      simp only [putCommand, Except.ok.injEq, true_and, reduceCtorEq, false_and, exists_false, or_false]
      exact eq_comm
  | some i =>
      simp only [putCommand, bind_eq_ok, orThrow_eq_ok, Except.ok.injEq, reduceCtorEq, false_and,
        false_or, Option.some.injEq]
      constructor
      · rintro ⟨command, found, rfl⟩
        exact ⟨i, command, rfl, found, rfl⟩
      · rintro ⟨_, command, rfl, found, rfl⟩
        exact ⟨command, found, rfl⟩

/-- A change of a command to a status that is not requested. -/
structure Closes (change : ModelCommand → ModelCommand) : Prop where
  runId : ∀ command, (change command).runId = command.runId
  revision : ∀ command, (change command).controlRevision = command.controlRevision
  profile : ∀ command, (change command).profileRef = command.profileRef
  closed : ∀ command, (change command).status ≠ .requested

/-- What `putCommand` does to the commands of the run of the command. -/
structure Closed (t t' : ModelTables) (rid : RunId) : Prop where
  touches : t.Touches t' rid
  controls : t'.controls = t.controls
  bindings : t'.bindings = t.bindings
  origin : ∀ id command', t'.Command rid id command' → ∃ command, t.Command rid id command ∧
    command'.controlRevision = command.controlRevision ∧ command'.profileRef = command.profileRef
  quiet : ∀ id command, t'.Command rid id command → command.status ≠ .requested

/-- Closing the only command that may be requested closes all. -/
theorem putCommand_closed {id : Option CommandId} {change : ModelCommand → ModelCommand}
    (closes : Closes change) (own : ∀ i, id = some i → ∃ command, t.Command rid i command)
    (only : ∀ i command, t.Command rid i command → command.status = .requested → id = some i)
    (h : putCommand t id change = .ok t') : Closed t t' rid := by
  rcases putCommand_eq_ok.mp h with ⟨none, rfl⟩ | ⟨i, command, named, found, rfl⟩
  · refine ⟨.refl, rfl, rfl, fun id command own => ⟨command, own, rfl, rfl⟩, ?_⟩
    intro i command own requested
    cases none.symm.trans (only i command own requested)
  · have run : command.runId = rid := by
      obtain ⟨command', found', run⟩ := own i named
      cases found.symm.trans found'
      exact run
    have read : ∀ j, (t.commands.put i (change command)).get? j =
        if j = i then some (change command) else t.commands.get? j := fun j =>
      Table.get?_put _ _ j _
    refine ⟨⟨fun _ _ => rfl, fun other apart j command' => ?_, fun j command' own' => ?_, fun _ _ => rfl⟩,
      rfl, rfl, fun j command' own' => ?_, fun j command' own' requested => ?_⟩
    · rw [Command, Command, read]
      split
      · rename_i same
        subst same
        constructor
        · rintro ⟨put, elsewhere⟩
          cases put
          exact absurd (elsewhere.symm.trans ((closes.runId command).trans run)) apart
        · rintro ⟨before, elsewhere⟩
          cases before.symm.trans found
          exact absurd (elsewhere.symm.trans run) apart
      · rfl
    · by_cases same : j = i
      · subst same
        cases own'.1.symm.trans found
        exact ⟨change command, ⟨by rw [read, if_pos rfl], (closes.runId command).trans run⟩,
          closes.revision command, closes.profile command⟩
      · exact ⟨command', ⟨by rw [read, if_neg same, own'.1], own'.2⟩, rfl, rfl⟩
    · obtain ⟨put, here⟩ := own'
      rw [read] at put
      split at put
      · rename_i same
        subst same
        cases put
        exact ⟨command, ⟨found, run⟩, closes.revision command, closes.profile command⟩
      · exact ⟨command', ⟨put, here⟩, rfl, rfl⟩
    · obtain ⟨put, here⟩ := own'
      rw [read] at put
      split at put
      · cases put
        exact closes.closed command requested
      · rename_i other
        cases named.symm.trans (only j command' ⟨put, here⟩ requested)
        exact other rfl

/-- The control keeps what it desires while its command is closed. -/
theorem Closed.commanded (h : Closed t t' rid) (before : t.Commanded first rid c)
    (revision : c'.controlRevision = c.controlRevision)
    (desired : c'.desiredProfileRef = c.desiredProfileRef) (named : c'.commandId = c.commandId) :
    t'.Commanded first rid c' where
  desired := by
    rw [revision, desired]
    exact h.touches.desired before.desired
  bounded id command own := by
    obtain ⟨command', own', same, -⟩ := h.origin id command own
    rw [same, revision]
    exact before.bounded id command' own'
  distinct id id' command command' own own' same := by
    obtain ⟨earlier, hearlier, revision, -⟩ := h.origin id command own
    obtain ⟨earlier', hearlier', revision', -⟩ := h.origin id' command' own'
    exact before.distinct id id' earlier earlier' hearlier hearlier'
      (revision.symm.trans (same.trans revision'))
  current id current := by
    obtain ⟨command, own⟩ := before.current id (named ▸ current)
    obtain ⟨command', own', -⟩ := h.touches.kept id command own
    exact ⟨command', own'⟩
  requested id command own requested := absurd requested (h.quiet id command own)

/-- The command of the control is closed, in tables with the same commands. -/
theorem settle_closed {change : ModelCommand → ModelCommand} (closes : Closes change)
    (before : t.Commanded first rid c) (h : putCommand u c.commandId change = .ok t')
    (same : u.commands = t.commands) : Closed u t' rid ∧
      (c'.controlRevision = c.controlRevision → c'.desiredProfileRef = c.desiredProfileRef →
        c'.commandId = c.commandId → t'.Commanded first rid c') := by
  have moved := before.congr same
  have closed := putCommand_closed closes moved.current
    (fun i command own requested => (moved.requested i command own requested).1) h
  exact ⟨closed, closed.commanded moved⟩

theorem finish_eq_ok {log : List Entry} (h : finish m s t rid now = .ok (t', log)) :
    ∃ run, s.runs.get? rid = some run ∧
      (((t.controlOf m rid run).status ≠ .requested ∧ t' = t ∧ log = []) ∨
        ∃ current, current = { t.controlOf m rid run with status := .notApplied } ∧
          putCommand { t with controls := t.controls.put rid current }
            (t.controlOf m rid run).commandId (fun c => { c with status := .notApplied }) = .ok t') := by
  simp only [finish, bind_eq_ok, control_eq_ok] at h
  obtain ⟨c, ⟨run, hrun, rfl⟩, h⟩ := h
  refine ⟨run, hrun, ?_⟩
  split at h
  · simp only [bind_eq_ok, orThrow_eq_ok, Except.ok.injEq, Prod.mk.injEq] at h
    obtain ⟨id, named, t', hput, rfl, rfl⟩ := h
    exact .inr ⟨_, rfl, named ▸ hput⟩
  · rename_i quiet
    cases h
    exact .inl ⟨quiet, rfl, rfl⟩

theorem reject_eq_ok {ctx : ExecutionContext} {candidate : ModelCallBinding} {code : String}
    {log : List Entry} (h : reject m s t ctx candidate code now = .ok (t', log)) :
    ∃ run, s.runs.get? ctx.runId = some run ∧ ((t' = t ∧ log = []) ∨ ∃ current,
      current = { t.controlOf m ctx.runId run with status := .rejected, reason := some code } ∧
      putCommand { t with controls := t.controls.put ctx.runId current }
        (t.controlOf m ctx.runId run).commandId
        (fun c => { c with status := .rejected, reason := some code }) = .ok t') := by
  simp only [reject, bind_eq_ok, control_eq_ok] at h
  obtain ⟨-, -, c, ⟨run, hrun, rfl⟩, h⟩ := h
  refine ⟨run, hrun, ?_⟩
  split at h
  · cases h
    exact .inl ⟨rfl, rfl⟩
  · simp only [bind_eq_ok, Except.ok.injEq, Prod.mk.injEq] at h
    obtain ⟨t', hput, rfl, rfl⟩ := h
    exact .inr ⟨_, rfl, hput⟩

/-- What `bind` does: the call has a binding, the control has moved on, or the call is bound. -/
theorem bound_eq_ok {ctx : ExecutionContext} {candidate : ModelCallBinding} {view : InputViewId}
    {bound : Option ModelCallBinding} {log : List Entry}
    (h : ModelSelection.bind m s t ctx candidate view now = .ok (bound, t', log)) :
    (t' = t ∧ log = []) ∨ ∃ run binding bindings current, s.runs.get? ctx.runId = some run ∧
      binding = { candidate with
        inputViewId := some view, fencingToken := some ctx.fencingToken, boundAt := some now } ∧
      candidate.controlRevision = (t.controlOf m ctx.runId run).controlRevision ∧
      t.bindings.insert? candidate.logicalCallId binding = some bindings ∧
      current = { t.controlOf m ctx.runId run with
        effectiveProfileRef := candidate.profileRef
        effectiveRevision := candidate.controlRevision, status := .applied } ∧
      putCommand { t with bindings, controls := t.controls.put ctx.runId current }
        (t.controlOf m ctx.runId run).commandId
        (fun c => { c with
          status := .applied, logicalCallId := some candidate.logicalCallId }) = .ok t' := by
  simp only [ModelSelection.bind, bind_eq_ok] at h
  obtain ⟨-, -, h⟩ := h
  split at h
  · cases h
    exact .inl ⟨rfl, rfl⟩
  · simp only [bind_eq_ok, control_eq_ok] at h
    obtain ⟨c, ⟨run, hrun, rfl⟩, h⟩ := h
    split at h
    · cases h
      exact .inl ⟨rfl, rfl⟩
    · rename_i same
      simp only [bind_eq_ok, orThrow_eq_ok, Except.ok.injEq, Prod.mk.injEq] at h
      obtain ⟨bindings, hinsert, t', hput, rfl, rfl, rfl⟩ := h
      exact .inr ⟨run, _, bindings, _, hrun, rfl, not_not.mp same, hinsert, rfl, hput⟩

theorem updatePreferences_eq_ok {validate : Validation} {owner : OwnerId} {session : SessionId}
    {ref : ProfileRef} {expected : Nat}
    (h : updatePreferences m t validate owner session ref expected = .ok t') :
    t'.controls = t.controls ∧ t'.commands = t.commands ∧ t'.bindings = t.bindings := by
  simp only [updatePreferences, preferences, bind_eq_ok, Except.ok.injEq] at h
  obtain ⟨⟨old, t₁⟩, ⟨original, -, h₁⟩, -, -, -, -, preferences, -, rfl⟩ := h
  split at h₁
  · cases h₁
    exact ⟨rfl, rfl, rfl⟩
  · simp only [bind_eq_ok, Except.ok.injEq, Prod.mk.injEq] at h₁
    obtain ⟨preferences', -, rfl, rfl⟩ := h₁
    exact ⟨rfl, rfl, rfl⟩

theorem select_eq_ok {messages : Table MessageId Message} {owner : OwnerId}
    {request : SelectionRequest} {validate : Validation} {identity : CommandId} {log : List Entry}
    (h : select m s messages t owner rid request validate identity now = .ok (t', log)) :
    ∃ run t₁ t₂ current command, s.runs.get? rid = some run ∧ run.status.terminal = false ∧
      t₁.controls = t.controls ∧ t₁.commands = t.commands ∧ t₁.bindings = t.bindings ∧
      putCommand t₁ (superseded (t.controlOf m rid run))
        (fun c => { c with status := .superseded }) = .ok t₂ ∧
      current = { t.controlOf m rid run with
        commandId := some identity
        controlRevision := (t.controlOf m rid run).controlRevision + 1
        desiredProfileRef := request.modelProfileRef, status := .requested } ∧
      command = { runId := rid, controlRevision := (t.controlOf m rid run).controlRevision + 1
                  profileRef := request.modelProfileRef, ownerId := owner, acceptedAt := now } ∧
      t' = { t₂ with
        commands := t₂.commands.put identity command, controls := t₂.controls.put rid current } := by
  simp only [select, bind_eq_ok, require_eq_ok, exists_const, Store.ownedRun_eq_ok, control_eq_ok] at h
  obtain ⟨-, run, ⟨hrun, -⟩, -, -, branch, -, ⟨live, -⟩, -, old, ⟨run', hrun', rfl⟩, -, h⟩ := h
  cases hrun.symm.trans hrun'
  have open_ : run.status.terminal = false := by
    revert live
    cases run.status <;> simp [RunStatus.terminal]
  split at h
  · simp only [bind_eq_ok, Except.ok.injEq, Prod.mk.injEq] at h
    obtain ⟨expected, -, t₁, hupdate, t₂, hput, rfl, rfl⟩ := h
    obtain ⟨controls, commands, bindings⟩ := updatePreferences_eq_ok hupdate
    exact ⟨run, t₁, t₂, _, _, hrun, open_, controls, commands, bindings, hput, rfl, rfl, rfl⟩
  · simp only [bind_eq_ok, Except.ok.injEq, Prod.mk.injEq] at h
    obtain ⟨_, rfl, t₂, hput, rfl, rfl⟩ := h
    exact ⟨run, _, t₂, _, _, hrun, open_, rfl, rfl, rfl, hput, rfl, rfl, rfl⟩

/-! ## What holds of the tables -/

end ModelSelection

namespace ModelTables

/-- The tables agree with the runs that are there. -/
structure Sound (m : Models) (runs : Table RunId Run) (t : ModelTables) : Prop where
  commanded : ∀ rid run, runs.get? rid = some run →
    t.Commanded (m.profileRef run.snapshotId) rid (t.controlOf m rid run)
  served : ∀ rid run, runs.get? rid = some run →
    t.Served (m.profileRef run.snapshotId) rid (t.controlOf m rid run)
  controls : ∀ rid control, t.controls.get? rid = some control → ∃ run, runs.get? rid = some run
  commands : ∀ id command, t.commands.get? id = some command →
    ∃ run, runs.get? command.runId = some run
  bindings : ∀ call b, t.bindings.get? call = some b → b.logicalCallId = call ∧
    b.runId = call.runId ∧ ∃ run, runs.get? b.runId = some run

/-- What a transaction of the selection does to the records of its run. -/
structure Transacts (m : Models) (runs : Table RunId Run) (t t' : ModelTables) (rid : RunId) :
    Prop where
  touches : t.Touches t' rid
  run : ∃ run, runs.get? rid = some run ∧
    t'.Commanded (m.profileRef run.snapshotId) rid (t'.controlOf m rid run) ∧
    t'.Served (m.profileRef run.snapshotId) rid (t'.controlOf m rid run)
  bindings : ∀ call b, t'.bindings.get? call = some b →
    t.bindings.get? call = some b ∨ (b.logicalCallId = call ∧ b.runId = call.runId ∧ b.runId = rid)

variable {runs runs' : Table RunId Run}

theorem controlOf_congr {other : RunId} (same : t'.controls.get? other = t.controls.get? other)
    (run : Run) : t'.controlOf m other run = t.controlOf m other run := by
  rw [controlOf, controlOf, same]

theorem Sound.empty : Sound m .empty {} :=
  ⟨fun _ _ h => (by cases h), fun _ _ h => (by cases h), fun _ _ h => (by cases h),
    fun _ _ h => (by cases h), fun _ _ h => (by cases h)⟩

/-- A transaction of one run leaves what holds of the others. -/
theorem Sound.transacts (sound : t.Sound m runs) (h : t.Transacts m runs t' rid) :
    t'.Sound m runs where
  commanded other run hrun := by
    by_cases same : other = rid
    · subst same
      obtain ⟨run', hrun', commanded, -⟩ := h.run
      cases hrun.symm.trans hrun'
      exact commanded
    · rw [controlOf_congr (h.touches.controls other same)]
      exact h.touches.commanded same (sound.commanded other run hrun)
  served other run hrun := by
    by_cases same : other = rid
    · subst same
      obtain ⟨run', hrun', -, served⟩ := h.run
      cases hrun.symm.trans hrun'
      exact served
    · rw [controlOf_congr (h.touches.controls other same)]
      exact h.touches.served (h.touches.bindings other same) (sound.served other run hrun) rfl
  controls other control saved := by
    by_cases same : other = rid
    · obtain ⟨run, hrun, -⟩ := h.run
      exact ⟨run, same ▸ hrun⟩
    · exact sound.controls other control (h.touches.controls other same ▸ saved)
  commands id command saved := by
    by_cases own : command.runId = rid
    · obtain ⟨run, hrun, -⟩ := h.run
      exact ⟨run, own ▸ hrun⟩
    · exact sound.commands id command ((h.touches.commands _ own id command).mp ⟨saved, rfl⟩).1
  bindings call b saved := by
    rcases h.bindings call b saved with before | ⟨named, own, here⟩
    · exact sound.bindings call b before
    · obtain ⟨run, hrun, -⟩ := h.run
      exact ⟨named, own, run, here ▸ hrun⟩

/-- Runs keep their snapshots, and new runs start without records. -/
theorem Sound.places (sound : t.Sound m runs)
    (kept : ∀ rid run, runs.get? rid = some run →
      ∃ run', runs'.get? rid = some run' ∧ run'.snapshotId = run.snapshotId) :
    t.Sound m runs' := by
  -- a run that was there, or one without records
  have known : ∀ rid run', runs'.get? rid = some run' →
      (∃ run, runs.get? rid = some run ∧ run'.snapshotId = run.snapshotId) ∨
        runs.get? rid = none := by
    intro rid run' hrun'
    cases before : runs.get? rid with
    | none => exact .inr rfl
    | some run =>
        obtain ⟨run'', hrun'', same⟩ := kept rid run before
        cases hrun'.symm.trans hrun''
        exact .inl ⟨run, rfl, same⟩
  have fresh : ∀ rid run', runs.get? rid = none →
      t.controlOf m rid run' = .initial (m.profileRef run'.snapshotId) ∧
      (∀ id command, ¬t.Command rid id command) ∧ t.bindingsOf rid = [] := by
    intro rid run' absent
    refine ⟨?_, ?_, ?_⟩
    · rw [controlOf]
      cases saved : t.controls.get? rid with
      | none => rfl
      | some control =>
          obtain ⟨run, hrun⟩ := sound.controls rid control saved
          cases absent.symm.trans hrun
    · rintro id command ⟨saved, own⟩
      obtain ⟨run, hrun⟩ := sound.commands id command saved
      rw [own] at hrun
      cases absent.symm.trans hrun
    · rw [bindingsOf, List.map_eq_nil_iff, List.eq_nil_iff_forall_not_mem]
      rintro ⟨call, b⟩ hb
      obtain ⟨saved, own⟩ := Table.mem_select.mp hb
      obtain ⟨-, -, run, hrun⟩ := sound.bindings call b saved
      rw [of_decide_eq_true own] at hrun
      cases absent.symm.trans hrun
  refine ⟨fun rid run' hrun' => ?_, fun rid run' hrun' => ?_, fun rid control saved => ?_,
    fun id command saved => ?_, fun call b saved => ?_⟩
  · rcases known rid run' hrun' with ⟨run, hrun, same⟩ | absent
    · have before := sound.commanded rid run hrun
      rw [controlOf, same]
      exact before
    · obtain ⟨control, none, -⟩ := fresh rid run' absent
      rw [control]
      exact ⟨.inl ⟨rfl, rfl⟩, fun id command own => absurd own (none id command),
        fun id _ command _ own => absurd own (none id command), fun _ named => (by cases named),
        fun id command own => absurd own (none id command)⟩
  · rcases known rid run' hrun' with ⟨run, hrun, same⟩ | absent
    · have before := sound.served rid run hrun
      rw [controlOf, same]
      exact before
    · obtain ⟨control, -, none⟩ := fresh rid run' absent
      rw [control]
      exact ⟨by rw [none]; rfl, fun b hb => by rw [none] at hb; cases hb⟩
  · obtain ⟨run, hrun⟩ := sound.controls rid control saved
    obtain ⟨run', hrun', -⟩ := kept rid run hrun
    exact ⟨run', hrun'⟩
  · obtain ⟨run, hrun⟩ := sound.commands id command saved
    obtain ⟨run', hrun', -⟩ := kept command.runId run hrun
    exact ⟨run', hrun'⟩
  · obtain ⟨named, own, run, hrun⟩ := sound.bindings call b saved
    obtain ⟨run', hrun', -⟩ := kept b.runId run hrun
    exact ⟨named, own, run', hrun'⟩

theorem bindingsOf_insert? {call : LogicalCall} {b : ModelCallBinding}
    {bindings : Table LogicalCall ModelCallBinding} (h : t.bindings.insert? call b = some bindings)
    (same : u.bindings = bindings) (other : RunId) :
    u.bindingsOf other = t.bindingsOf other ++ if b.runId = other then [b] else [] := by
  unfold Table.insert? at h
  split at h
  · cases h
  · cases h
    rw [bindingsOf, bindingsOf, same, Table.select, Table.select, Table.insert, List.filter_append,
      List.map_append]
    split
    · rename_i own
      simp [own]
    · rename_i apart
      simp [apart]

theorem controlOf_put {run : Run} (same : t'.controls = t.controls.put rid c) :
    t'.controlOf m rid run = c := by
  rw [controlOf, same, Table.get?_put, if_pos rfl]
  rfl

end ModelTables

namespace ModelSelection

open ModelTables

variable {runs : Table RunId Run} {run : Run}

/-- Closing the command of a run that keeps what is effective. -/
theorem settle_transacts {change : ModelCommand → ModelCommand} {current : ModelControl}
    (sound : t.Sound m runs) (hrun : runs.get? rid = some run) (closes : Closes change)
    (revision : current.controlRevision = (t.controlOf m rid run).controlRevision)
    (desired : current.desiredProfileRef = (t.controlOf m rid run).desiredProfileRef)
    (named : current.commandId = (t.controlOf m rid run).commandId)
    (effective : current.effectiveProfileRef = (t.controlOf m rid run).effectiveProfileRef)
    (h : putCommand { t with controls := t.controls.put rid current }
      (t.controlOf m rid run).commandId change = .ok t') :
    t.Transacts m runs t' rid ∧ t'.controls = t.controls.put rid current ∧
      t'.bindings = t.bindings := by
  obtain ⟨closed, commanded⟩ := settle_closed closes (sound.commanded rid run hrun) h rfl
  have touches := (Touches.control t rid current).trans closed.touches
  refine ⟨⟨touches, ⟨run, hrun, ?_, ?_⟩, fun call b saved => .inl ?_⟩, closed.controls,
    closed.bindings⟩
  · rw [controlOf_put closed.controls]
    exact commanded revision desired named
  · rw [controlOf_put closed.controls]
    refine touches.served ?_ (sound.served rid run hrun) effective
    rw [bindingsOf, closed.bindings]
    rfl
  · rw [closed.bindings] at saved
    exact saved

theorem finish_transacts {log : List Entry} (sound : t.Sound m s.runs)
    (h : finish m s t rid now = .ok (t', log)) : t.Touches t' rid ∧ t'.Sound m s.runs ∧
      t'.bindings = t.bindings ∧ ∀ c, t'.controls.get? rid = some c → c.status ≠ .requested := by
  obtain ⟨run, hrun, ⟨quiet, rfl, -⟩ | ⟨current, hcurrent, hput⟩⟩ := finish_eq_ok h
  · refine ⟨.refl, sound, rfl, fun c saved => ?_⟩
    rw [controlOf, saved] at quiet
    exact quiet
  · have closes : Closes fun c => { c with status := .notApplied } :=
      ⟨fun _ => rfl, fun _ => rfl, fun _ => rfl, fun _ => (by simp)⟩
    obtain ⟨transacts, controls, bindings⟩ :=
      settle_transacts sound hrun closes (by rw [hcurrent]) (by rw [hcurrent]) (by rw [hcurrent])
        (by rw [hcurrent]) hput
    refine ⟨transacts.touches, sound.transacts transacts, bindings, fun c saved => ?_⟩
    rw [controls, Table.get?_put, if_pos rfl, hcurrent] at saved
    cases saved
    simp

/-- The hook closes the controls of the runs that end and touches no other. -/
theorem finishAll_closes {order : List RunId} {log : List Entry} (sound : t.Sound m s.runs)
    (h : finishAll m s now t order = .ok (t', log)) : t'.Sound m s.runs ∧
      t'.bindings = t.bindings ∧
      (∀ first rid revision ref, t.Desired first rid revision ref → t'.Desired first rid revision ref) ∧
      (∀ rid, rid ∉ order → t'.controls.get? rid = t.controls.get? rid) ∧
      ∀ rid c, rid ∈ order → t'.controls.get? rid = some c → c.status ≠ .requested := by
  induction order generalizing t log with
  | nil =>
      cases h
      exact ⟨sound, rfl, fun _ _ _ _ h => h, fun _ _ => rfl, fun _ _ h => absurd h List.not_mem_nil⟩
  | cons rid rest ih =>
      simp only [finishAll, bind_eq_ok, Except.ok.injEq, Prod.mk.injEq] at h
      obtain ⟨⟨t₁, finished⟩, hfinish, ⟨t₂, more⟩, hrest, rfl, rfl⟩ := h
      obtain ⟨touches, sound₁, bindings₁, closed⟩ := finish_transacts sound hfinish
      obtain ⟨sound₂, bindings₂, desired, others, closes⟩ := ih sound₁ hrest
      refine ⟨sound₂, bindings₂.trans bindings₁, fun first other revision ref before =>
        desired _ _ _ _ (touches.desired before), fun other apart => ?_, fun other c here saved => ?_⟩
      · rw [List.mem_cons, not_or] at apart
        exact (others other apart.2).trans (touches.controls other apart.1)
      · by_cases later : other ∈ rest
        · exact closes other c later saved
        · obtain rfl | here := List.mem_cons.mp here
          · exact closed c (others other later ▸ saved)
          · exact absurd here later

theorem reject_transacts {ctx : ExecutionContext} {candidate : ModelCallBinding} {code : String}
    {log : List Entry} (sound : t.Sound m s.runs)
    (h : reject m s t ctx candidate code now = .ok (t', log)) : t' = t ∨
      (t.Transacts m s.runs t' ctx.runId ∧ t'.bindings = t.bindings ∧
        ∀ c, t'.controls.get? ctx.runId = some c → c.status ≠ .requested) := by
  obtain ⟨run, hrun, ⟨rfl, -⟩ | ⟨current, hcurrent, hput⟩⟩ := reject_eq_ok h
  · exact .inl rfl
  · have closes : Closes fun c => { c with status := .rejected, reason := some code } :=
      ⟨fun _ => rfl, fun _ => rfl, fun _ => rfl, fun _ => (by simp)⟩
    obtain ⟨transacts, controls, bindings⟩ :=
      settle_transacts sound hrun closes (by rw [hcurrent]) (by rw [hcurrent]) (by rw [hcurrent])
        (by rw [hcurrent]) hput
    refine .inr ⟨transacts, bindings, fun c saved => ?_⟩
    rw [controls, Table.get?_put, if_pos rfl, hcurrent] at saved
    cases saved
    simp

/-- A binding is made at the revision of the control and of the profile that it desires. -/
structure Binds (m : Models) (runs : Table RunId Run) (t t' : ModelTables) (b : ModelCallBinding) :
    Prop where
  run : ∃ run, runs.get? b.runId = some run ∧
    b.controlRevision = (t.controlOf m b.runId run).controlRevision ∧
    b.profileRef = (t.controlOf m b.runId run).desiredProfileRef ∧
    (t'.controlOf m b.runId run).effectiveProfileRef = b.profileRef
  latest : ∀ id command, t.Command b.runId id command → command.controlRevision ≤ b.controlRevision
  insert : t.bindings.insert? b.logicalCallId b = some t'.bindings

/-- The candidate of a task is of its call and of its run, and was desired. -/
def Prepared (m : Models) (runs : Table RunId Run) (t : ModelTables) (ctx : ExecutionContext)
    (call : LogicalCall) (candidate : ModelCallBinding) : Prop :=
  candidate.logicalCallId = call ∧ candidate.runId = ctx.runId ∧
    ∃ run, runs.get? ctx.runId = some run ∧
      t.Desired (m.profileRef run.snapshotId) ctx.runId candidate.controlRevision candidate.profileRef

theorem bind_transacts {ctx : ExecutionContext} {call : LogicalCall} {candidate : ModelCallBinding}
    {view : InputViewId} {bound : Option ModelCallBinding} {log : List Entry}
    (sound : t.Sound m s.runs) (own : call.runId = ctx.runId)
    (prepared : Prepared m s.runs t ctx call candidate)
    (h : ModelSelection.bind m s t ctx candidate view now = .ok (bound, t', log)) : t' = t ∨
      (t.Transacts m s.runs t' ctx.runId ∧ (∃ b, b.runId = ctx.runId ∧ Binds m s.runs t t' b) ∧
        ∀ c, t'.controls.get? ctx.runId = some c → c.status ≠ .requested) := by
  obtain ⟨rfl, -⟩ | ⟨run, b, bindings, current, hrun, hb, revision, hinsert, rfl, hput⟩ :=
    bound_eq_ok h
  · exact .inl rfl
  obtain ⟨rfl, here, run', hrun', desired⟩ := prepared
  cases hrun.symm.trans hrun'
  have before := sound.commanded ctx.runId run hrun
  have closes : Closes fun c => { c with
      status := .applied, logicalCallId := some candidate.logicalCallId } :=
    ⟨fun _ => rfl, fun _ => rfl, fun _ => rfl, fun _ => (by simp)⟩
  obtain ⟨closed, commanded⟩ := settle_closed closes before hput rfl
  -- what the candidate was made of is what the control still desires
  have profile : candidate.profileRef = (t.controlOf m ctx.runId run).desiredProfileRef :=
    before.unique desired (revision ▸ before.desired)
  have others := bindingsOf_insert? hinsert closed.bindings
  have ownBinding : b.runId = ctx.runId := by rw [hb]; exact here
  have touches : t.Touches t' ctx.runId := by
    refine ⟨fun other apart => ?_, fun other apart id command => ?_, fun id command own => ?_,
      fun other apart => ?_⟩
    · rw [closed.controls, Table.get?_put, if_neg apart]
    · exact closed.touches.commands other apart id command
    · exact closed.touches.kept id command own
    · rw [others, if_neg (ownBinding ▸ apart.symm), List.append_nil]
  have control : t'.controlOf m ctx.runId run = { t.controlOf m ctx.runId run with
      effectiveProfileRef := candidate.profileRef
      effectiveRevision := candidate.controlRevision, status := .applied } :=
    controlOf_put closed.controls
  refine .inr ⟨⟨touches, ⟨run, hrun, ?_, ?_, ?_⟩, fun call b' saved => ?_⟩, ⟨b, ownBinding, ⟨run, ?_, ?_⟩, ?_, ?_⟩,
    fun c saved => ?_⟩
  · rw [control]
    exact commanded rfl rfl rfl
  · rw [control, others, if_pos ownBinding, List.getLast?_append, hb]
    rfl
  · rw [others, if_pos ownBinding]
    intro b' hb'
    rcases List.mem_append.mp hb' with before | new
    · exact touches.desired ((sound.served ctx.runId run hrun).bound b' before)
    · cases List.mem_singleton.mp new
      rw [hb]
      exact touches.desired desired
  · rw [closed.bindings] at saved
    rw [(Table.insert?_eq_some hinsert).2] at saved
    split at saved
    · rename_i same
      cases saved
      refine .inr ⟨by rw [same, hb], ?_, ownBinding⟩
      rw [ownBinding, same, own]
    · exact .inl saved
  · rw [ownBinding]; exact hrun
  · rw [ownBinding, control, hb]
    exact ⟨revision, profile, rfl⟩
  · rw [ownBinding]
    intro id command own
    have bound := (before.bounded id command own).2
    rw [hb]
    exact revision ▸ bound
  · rw [closed.bindings, hb]
    rw [hb] at hinsert
    exact hinsert
  · rw [closed.controls, Table.get?_put, if_pos rfl] at saved
    cases saved
    simp

/-- A new command has the next revision and is the only one requested. -/
theorem select_transacts {messages : Table MessageId Message} {owner : OwnerId}
    {request : SelectionRequest} {validate : Validation} {identity : CommandId} {log : List Entry}
    (sound : t.Sound m s.runs) (fresh : t.commands.get? identity = none)
    (h : select m s messages t owner rid request validate identity now = .ok (t', log)) :
    t.Transacts m s.runs t' rid ∧ t'.bindings = t.bindings ∧ ¬s.Ended rid := by
  obtain ⟨run, t₁, t₂, current, command, hrun, live, controls, commands, bindings, hput, hcurrent,
    hcommand, rfl⟩ := select_eq_ok h
  have before := (sound.commanded rid run hrun).congr commands
  have closes : Closes fun c => { c with status := .superseded } :=
    ⟨fun _ => rfl, fun _ => rfl, fun _ => rfl, fun _ => (by simp)⟩
  have closed : Closed t₁ t₂ rid := by
    refine putCommand_closed closes (fun i named => ?_) (fun i command own requested => ?_) hput
    · rw [superseded] at named
      split at named
      · exact before.current i named
      · cases named
    · obtain ⟨named, asked⟩ := before.requested i command own requested
      rw [superseded, if_pos asked, named]
  have unknown : ∀ other i command, t₂.Command other i command → i ≠ identity := by
    rintro other i command own rfl
    have known : ∃ command, t₁.Command other i command := by
      by_cases same : other = rid
      · subst same
        obtain ⟨command', own', -⟩ := closed.origin i command own
        exact ⟨command', own'⟩
      · exact ⟨command, (closed.touches.commands other same i command).mp own⟩
    obtain ⟨command', saved, -⟩ := known
    rw [commands, fresh] at saved
    cases saved
  have read : ∀ i, (t₂.commands.put identity command).get? i =
      if i = identity then some command else t₂.commands.get? i := fun i => Table.get?_put _ _ i _
  have after : t₂.Commanded (m.profileRef run.snapshotId) rid (t.controlOf m rid run) :=
    closed.commanded before rfl rfl rfl
  generalize hfinal : ({ t₂ with
    commands := t₂.commands.put identity command
    controls := t₂.controls.put rid current } : ModelTables) = final
  have own : ∀ other i c, final.Command other i c ↔
      (i = identity ∧ c = command ∧ other = rid) ∨ t₂.Command other i c := by
    intro other i c
    rw [← hfinal, Command, Command]
    dsimp only
    rw [read]
    split
    · rename_i same
      subst same
      constructor
      · rintro ⟨put, here⟩
        cases put
        exact .inl ⟨rfl, rfl, by rw [← here, hcommand]⟩
      · rintro (⟨-, rfl, rfl⟩ | known)
        · exact ⟨rfl, by rw [hcommand]⟩
        · exact absurd rfl (unknown other i c known)
    · rename_i other'
      exact ⟨.inr, fun known => known.resolve_left fun new => other' new.1⟩
  have touches : t.Touches final rid := by
    refine ⟨fun other apart => ?_, fun other apart i c => ?_, fun i c known => ?_,
      fun other apart => ?_⟩
    · rw [← hfinal, ← controls, ← closed.controls]
      exact (Table.get?_put _ _ _ _).trans (if_neg apart)
    · rw [own, closed.touches.commands other apart]
      rw [Command, Command, commands]
      exact ⟨fun known => known.resolve_left fun new => apart new.2.2, .inr⟩
    · obtain ⟨c', known', revision, profile⟩ := closed.touches.kept i c
        (show t₁.commands.get? i = some c ∧ c.runId = rid from commands ▸ known)
      exact ⟨c', (own rid i c').mpr (.inr known'), revision, profile⟩
    · rw [bindingsOf, bindingsOf, ← hfinal, ← bindings, ← closed.bindings]
  have sameBindings : final.bindings = t.bindings := by
    rw [← hfinal, ← bindings, ← closed.bindings]
  have control : final.controlOf m rid run = current := by
    rw [← hfinal]
    exact controlOf_put rfl
  refine ⟨⟨touches, ⟨run, hrun, ?_, ?_⟩, fun call b saved => .inl (sameBindings ▸ saved)⟩,
    sameBindings, ?_⟩
  · rw [control, hcurrent]
    refine ⟨.inr ⟨identity, command, (own rid identity command).mpr (.inl ⟨rfl, rfl, rfl⟩), ?_, ?_⟩,
      fun i c known => ?_, fun i i' c c' known known' same => ?_, fun i named => ?_,
      fun i c known requested => ?_⟩
    · rw [hcommand]
    · rw [hcommand]
    · rcases (own rid i c).mp known with ⟨rfl, rfl, -⟩ | earlier
      · rw [hcommand]
        exact ⟨Nat.le_add_left 1 _, Nat.le_refl _⟩
      · have bounds := after.bounded i c earlier
        exact ⟨bounds.1, Nat.le_succ_of_le bounds.2⟩
    · -- the new revision is above those of the earlier commands
      rcases (own rid i c).mp known with ⟨rfl, rfl, -⟩ | earlier
      · rcases (own rid i' c').mp known' with ⟨rfl, -, -⟩ | earlier'
        · rfl
        · have bound := (after.bounded i' c' earlier').2
          rw [hcommand] at same
          dsimp only at same
          omega
      · rcases (own rid i' c').mp known' with ⟨rfl, rfl, -⟩ | earlier'
        · have bound := (after.bounded i c earlier).2
          rw [hcommand] at same
          dsimp only at same
          omega
        · exact after.distinct i i' c c' earlier earlier' same
    · cases named
      exact ⟨command, (own rid identity command).mpr (.inl ⟨rfl, rfl, rfl⟩)⟩
    · rcases (own rid i c).mp known with ⟨rfl, rfl, -⟩ | earlier
      · exact ⟨rfl, rfl⟩
      · exact absurd requested (closed.quiet i c earlier)
  · rw [control]
    refine touches.served ?_ (sound.served rid run hrun) (by rw [hcurrent])
    rw [bindingsOf, bindingsOf, sameBindings]
  · rintro ⟨run', hrun', ended⟩
    cases hrun.symm.trans hrun'
    cases live.symm.trans ended

/-! ## Events -/

/-- Events that are noted of a run. -/
def Notes (s : Store) (now : Time) (log : List Entry) : Prop :=
  ∀ e ∈ log, e.type.noted = true ∧ (s.runs.get? e.runId).isSome ∧
    ∃ payload, e = ⟨e.runId, e.type, .record payload, now⟩

theorem Notes.single {type : EventType} {payload : Json} (noted : type.noted = true)
    (hrun : s.runs.get? rid = some run) : Notes s now [⟨rid, type, .record payload, now⟩] := by
  intro e he
  cases List.mem_singleton.mp he
  exact ⟨noted, by rw [hrun]; rfl, payload, rfl⟩

theorem select_notes {messages : Table MessageId Message} {owner : OwnerId}
    {request : SelectionRequest} {validate : Validation} {identity : CommandId} {log : List Entry}
    (h : select m s messages t owner rid request validate identity now = .ok (t', log)) :
    Notes s now log := by
  simp only [select, bind_eq_ok, require_eq_ok, exists_const, Store.ownedRun_eq_ok, control_eq_ok] at h
  obtain ⟨-, run, ⟨hrun, -⟩, -, -, branch, -, -, -, old, -, -, h⟩ := h
  have told : ∀ payload : Json, Notes s now ((superseded old).toList.map (fun id =>
      Entry.mk rid .modelSelectionSuperseded (.record (m.encodeCommand id)) now) ++
        [⟨rid, .modelSelectionRequested, .record payload, now⟩]) := by
    intro payload e he
    rcases List.mem_append.mp he with he | he
    · obtain ⟨id, -, rfl⟩ := List.mem_map.mp he
      exact ⟨rfl, by rw [hrun]; rfl, _, rfl⟩
    · exact Notes.single rfl hrun e he
  split at h
  · simp only [bind_eq_ok, Except.ok.injEq, Prod.mk.injEq] at h
    obtain ⟨expected, -, t₁, -, t₂, -, -, rfl⟩ := h
    exact told _
  · simp only [bind_eq_ok, Except.ok.injEq, Prod.mk.injEq] at h
    obtain ⟨t₁, -, t₂, -, -, rfl⟩ := h
    exact told _

theorem bind_notes {ctx : ExecutionContext} {candidate : ModelCallBinding} {view : InputViewId}
    {bound : Option ModelCallBinding} {log : List Entry}
    (h : ModelSelection.bind m s t ctx candidate view now = .ok (bound, t', log)) :
    Notes s now log := by
  simp only [ModelSelection.bind, bind_eq_ok] at h
  obtain ⟨-, -, h⟩ := h
  split at h
  · cases h
    exact fun _ he => absurd he List.not_mem_nil
  · simp only [bind_eq_ok, control_eq_ok] at h
    obtain ⟨c, ⟨run, hrun, -⟩, h⟩ := h
    split at h
    · cases h
      exact fun _ he => absurd he List.not_mem_nil
    · simp only [bind_eq_ok, Except.ok.injEq, Prod.mk.injEq] at h
      obtain ⟨bindings, -, t', -, -, -, rfl⟩ := h
      exact .single rfl hrun

theorem reject_notes {ctx : ExecutionContext} {candidate : ModelCallBinding} {code : String}
    {log : List Entry} (h : reject m s t ctx candidate code now = .ok (t', log)) :
    Notes s now log := by
  simp only [reject, bind_eq_ok, control_eq_ok] at h
  obtain ⟨-, -, c, ⟨run, hrun, -⟩, h⟩ := h
  split at h
  · cases h
    exact fun _ he => absurd he List.not_mem_nil
  · simp only [bind_eq_ok, Except.ok.injEq, Prod.mk.injEq] at h
    obtain ⟨t', -, -, rfl⟩ := h
    exact .single rfl hrun

end ModelSelection

end MiHarness

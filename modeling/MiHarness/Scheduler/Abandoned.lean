import MiHarness.Scheduler.Stuck

/-!
# Abandoned runs

A run is abandoned when its lease has expired and the process of its attempt has exited.  The turn
of such a run in `recover` looks up the tool of each operation that was running, in the registry of
the process that recovers.  A process registers the tools of a server only when it makes or prepares
a run, so it need not have registered the tool of a run that another process has left behind; then
the look-up raises and the whole turn is undone.
-/

namespace MiHarness

open Library

variable {now : Time} {s s' t : Store} {host : Host} {machine : Machine}

/-- The lease of the run has expired and the process of its attempt has exited. -/
def Store.Abandoned (s : Store) (machine : Machine) (now : Time) (rid : RunId) : Prop :=
  ∃ run aid a, s.runs.get? rid = some run ∧ run.status ∈ recoverable ∧ run.attemptId = some aid ∧
    s.attempts.get? aid = some a ∧ a.leaseExpiry ≤ now ∧ machine.alive a.process = false

/-- The process that recovers has registered the tool of the operation, if it has to look it up:
the operation was running, has no exchange with a server, and is no write that has been verified. -/
def Machine.Knows (machine : Machine) (host : Host) (o : Operation) : Prop :=
  o.state = .running → o.metadata.protocolContinuation = none → machine.verifiesWrite o = false →
    (host.tool? machine.registered o.toolId o.toolRevision).isSome = true

/-- Nothing that `recover` needs of the process and of the machine is missing for the run. -/
structure Store.Recoverable (s : Store) (host : Host) (machine : Machine) (rid : RunId) : Prop where
  reaped : machine.reap rid = none
  known : ∀ oid o, s.operations.get? oid = some o → o.runId = rid → machine.Knows host o

/-! ## The statements of a turn -/

theorem Store.updateRun_commits {rid : RunId} {run : Run} (patch : RunPatch)
    (hrun : s.runs.get? rid = some run) : s.updateRun rid run.revision patch none now =
      .ok { s with runs := s.runs.modify rid patch.apply } := by
  have revision : (s.runs.get? rid).map Run.revision = some run.revision := by rw [hrun]; rfl
  rw [updateRun, assertFence?, ok_bind, require_pos _ revision, ok_bind]

/-- A transition that is allowed and ends no run goes through. -/
theorem transition_commits {rid : RunId} {run : Run} {status : RunStatus} {reason : Option String}
    {extra : RunPatch} (hrun : s.runs.get? rid = some run) (allowed : status ∈ run.status.allowed)
    (live : status.terminal = false) : ∃ s', transition s rid status none reason extra now = .ok s' := by
  have updated : ∀ patch : RunPatch, ({ s with runs := s.runs.modify rid patch.apply } : Store).run rid =
      .ok (patch.apply run) := by
    intro patch
    rw [Store.run_eq_ok]
    show (s.runs.modify rid _).get? rid = _
    rw [Table.get?_modify_self, hrun]
    rfl
  exact ⟨_, by rw [transition, Store.run_eq_ok.mpr hrun, ok_bind, require_pos _ allowed, ok_bind,
    Store.updateRun_commits _ hrun, ok_bind, updated, ok_bind, if_neg (by simp [live]), ok_bind]⟩

theorem markLost_commits {rid : RunId} {run : Run} (now : Time)
    (hrun : s.runs.get? rid = some run) : ∃ s', markLost s rid run now = .ok s' := by
  unfold markLost
  split
  · rename_i running
    exact transition_commits hrun (by rw [running]; decide) rfl
  · exact ⟨s, rfl⟩

theorem releaseLost_commits {rid : RunId} {run : Run} (unknown : Bool) (now : Time)
    (hrun : s.runs.get? rid = some run) : ∃ s', releaseLost s rid unknown now = .ok s' := by
  unfold releaseLost
  rw [Store.run_eq_ok.mpr hrun, ok_bind]
  split
  · rename_i recovering
    split
    · exact transition_commits hrun (by rw [recovering]; decide) rfl
    · exact transition_commits hrun (by rw [recovering]; decide) rfl
  · exact ⟨s, rfl⟩

theorem Store.updateOperation_commits {oid : OperationId} {o : Operation} (patch : OperationPatch)
    (ho : s.operations.get? oid = some o) : s.updateOperation oid o.revision patch none now =
      .ok { s with operations := s.operations.modify oid patch.apply } := by
  have revision : (s.operations.get? oid).map Operation.revision = some o.revision := by rw [ho]; rfl
  rw [updateOperation, assertFence?, ok_bind, require_pos _ revision, ok_bind]

/-- The turn of an operation goes through exactly if its tool is known. -/
theorem recoverOperation_commits {continuations : List OperationId} {b : Bool} {oid : OperationId}
    {o : Operation} (ho : s.operations.get? oid = some o)
    (saved : oid ∈ continuations → o.metadata.protocolContinuation ≠ none) :
    (∃ r, recoverOperation host machine continuations (b, s) oid o now = .ok r) ↔
      machine.Knows host o := by
  unfold recoverOperation
  dsimp only
  split
  · rename_i idle
    exact iff_of_true ⟨_, rfl⟩ fun running => absurd running idle
  rename_i running
  rw [not_not] at running
  split
  · rename_i kept
    exact iff_of_true ⟨_, rfl⟩ fun _ none => absurd none (saved kept)
  split
  · rename_i exchange
    refine iff_of_true ⟨_, by rw [Store.updateOperation_commits _ ho, ok_bind]⟩ fun _ none => ?_
    rw [none] at exchange
    cases exchange
  rename_i plain
  rw [Bool.not_eq_true, Option.isSome_eq_false_iff, Option.isNone_iff_eq_none] at plain
  split
  · rename_i verified
    refine iff_of_true ⟨_, by rw [Store.updateOperation_commits _ ho, ok_bind]⟩ fun _ _ other => ?_
    rw [verified] at other
    cases other
  rename_i unverified
  rw [Bool.not_eq_true] at unverified
  cases found : host.tool? machine.registered o.toolId o.toolRevision with
  | none =>
      refine iff_of_false ?_ fun knows => ?_
      · rintro ⟨r, h⟩
        rw [Host.tool, found] at h
        cases h
      · have known := knows running plain unverified
        rw [found] at known
        cases known
  | some spec =>
      refine iff_of_true ?_ fun _ _ _ => by rw [found]; rfl
      rw [Host.tool, found, orThrow_eq_ok.mpr rfl, ok_bind]
      split
      · exact ⟨_, by rw [Store.updateOperation_commits _ ho, ok_bind]⟩
      · exact ⟨_, by rw [Store.updateOperation_commits _ ho, ok_bind]⟩

/-- The loop over the operations goes through exactly if all their tools are known. -/
theorem recoverOperations_commits {continuations : List OperationId} {b : Bool}
    {l : List (OperationId × Operation)} (distinct : (l.map Prod.fst).Nodup)
    (rows : ∀ e ∈ l, s.operations.get? e.1 = some e.2)
    (saved : ∀ e ∈ l, e.1 ∈ continuations → e.2.metadata.protocolContinuation ≠ none) :
    (∃ r, l.foldlM (fun acc e => recoverOperation host machine continuations acc e.1 e.2 now) (b, s) =
      .ok r) ↔ ∀ e ∈ l, machine.Knows host e.2 := by
  constructor
  · rintro ⟨r, h⟩
    have turn : ∀ e ∈ l, ∀ acc acc' : Bool × Store, acc.2.operations.get? e.1 = some e.2 →
        recoverOperation host machine continuations acc e.1 e.2 now = .ok acc' →
        machine.Knows host e.2 ∧ ∀ e' ∈ l, e'.1 ≠ e.1 →
          acc.2.operations.get? e'.1 = some e'.2 → acc'.2.operations.get? e'.1 = some e'.2 := by
      rintro e he ⟨c, t⟩ ⟨c', t'⟩ ho hturn
      refine ⟨(recoverOperation_commits ho (saved e he)).mp ⟨_, hturn⟩, fun e' _ ne row => ?_⟩
      rcases recoverOperation_eq_ok hturn with ⟨rfl, -⟩ | ⟨-, patch, -, -, -, -, -, rfl⟩
      · exact row
      · exact (Table.get?_modify_ne _ _ ne).trans row
    exact (foldlM_each (R := fun _ _ => True)
      (P := fun (acc : Bool × Store) id o => acc.2.operations.get? id = some o)
      (Q := fun _ e => machine.Knows host e.2) (fun _ => trivial) (fun _ _ _ _ _ => trivial)
      (fun _ _ _ _ known => known) distinct h rows fun e he acc acc' _ ho hturn =>
        ⟨trivial, turn e he acc acc' ho hturn⟩).2
  · intro known
    refine foldlM_commits (P := fun (acc : Bool × Store) id o => acc.2.operations.get? id = some o)
      distinct rows ?_
    rintro e he ⟨c, t⟩ ho
    obtain ⟨⟨c', t'⟩, hturn⟩ := (recoverOperation_commits ho (saved e he)).mpr (known e he)
    refine ⟨(c', t'), hturn, fun e' _ ne row => ?_⟩
    rcases recoverOperation_eq_ok hturn with ⟨rfl, -⟩ | ⟨-, patch, -, -, -, -, -, rfl⟩
    · exact row
    · exact (Table.get?_modify_ne _ _ ne).trans row

/-- An exchange that `recover` leaves alone is one that the row has saved. -/
theorem Store.saved_of_continuations {rid : RunId} {oid : OperationId} {o : Operation}
    (ho : s.operations.get? oid = some o) (member : oid ∈ (s.continuations rid).map Prod.fst) :
    o.metadata.protocolContinuation ≠ none := by
  obtain ⟨⟨oid', o'⟩, hx, rfl⟩ := List.mem_map.mp member
  obtain ⟨listed, saved⟩ := List.mem_filter.mp hx
  cases ho.symm.trans (Store.mem_operationsOf.mp listed).1
  intro none
  rw [Store.continuation, Operation.awaitsInput, none] at saved
  cases saved

theorem settleLost_commits {rid : RunId} {aid : AttemptId} {run : Run}
    {continuations : List OperationId} (hrun : s.runs.get? rid = some run)
    (saved : ∀ oid o, s.operations.get? oid = some o → oid ∈ continuations →
      o.metadata.protocolContinuation ≠ none) :
    (∃ s', settleLost host machine s rid aid continuations now = .ok s') ↔
      ∀ oid o, s.operations.get? oid = some o → o.runId = rid → machine.Knows host o := by
  have rows : ∀ e ∈ s.operationsOf rid, s.operations.get? e.1 = some e.2 := fun e he =>
    (Store.mem_operationsOf.mp he).1
  have loop : (∃ r, (s.operationsOf rid).foldlM (fun acc e =>
      recoverOperation host machine continuations acc e.1 e.2 now)
        (false, s.endAttempt aid "worker_lost" now) = .ok r) ↔
      ∀ e ∈ s.operationsOf rid, machine.Knows host e.2 :=
    recoverOperations_commits (Table.nodup_select _ _) rows fun e he => saved e.1 e.2 (rows e he)
  constructor
  · rintro ⟨s', h⟩ oid o ho owner
    obtain ⟨r, hloop, -⟩ := bind_eq_ok.mp h
    exact loop.mp ⟨r, hloop⟩ (oid, o) (Store.mem_operationsOf.mpr ⟨ho, owner⟩)
  · intro known
    obtain ⟨⟨unknown, t⟩, hloop⟩ := loop.mpr fun e he =>
      known e.1 e.2 (rows e he) (Store.mem_operationsOf.mp he).2
    obtain ⟨operations, rfl⟩ := (recoverOperations (s := s.endAttempt aid "worker_lost" now)
      (Table.nodup_select _ _) rows hloop).frame
    obtain ⟨s', hrelease⟩ := releaseLost_commits (s := { s.endAttempt aid "worker_lost" now with
      operations }) unknown now hrun
    exact ⟨s', bind_eq_ok.mpr ⟨_, hloop, hrelease⟩⟩

/-! ## The turn of a run -/

/-- The first writes of a turn leave the operations as they are. -/
theorem markLost_kept {rid : RunId} {run : Run} (hrun : s.runs.get? rid = some run)
    (h : markLost s rid run now = .ok t) : t.operations = s.operations ∧
      t.interactions = s.interactions ∧ ∃ run, t.runs.get? rid = some run := by
  rcases markLost_eq_ok h with ⟨-, events, rfl⟩ | ⟨-, rfl⟩
  · refine ⟨rfl, rfl, RunPatch.apply { status := some .recovering } run, ?_⟩
    rw [Table.get?_modify_self, hrun]
    rfl
  · exact ⟨rfl, rfl, run, hrun⟩

/-- The turn of a run that is not abandoned goes through. -/
theorem recoverRun_idle {rid : RunId} {run : Run} (hrun : s.runs.get? rid = some run)
    (held : ∀ aid a, run.attemptId = some aid → s.attempts.get? aid = some a →
      a.leaseExpiry ≤ now → machine.alive a.process = true) :
    ∃ s', recoverRun host machine s rid run now = .ok s' := by
  unfold recoverRun
  split
  · exact ⟨s, rfl⟩
  rename_i aid named
  split
  · exact ⟨s, rfl⟩
  rename_i a ha
  split
  · exact ⟨s, rfl⟩
  rename_i expired
  have alive := held aid a named ha (Nat.not_lt.mp expired)
  obtain ⟨t, hlost⟩ := markLost_commits now hrun
  dsimp only
  rw [alive, Machine.reapError, if_pos rfl]
  exact ⟨_, by rw [recoverAttempt, Store.run_eq_ok.mpr hrun, ok_bind, if_neg (not_not.mpr named),
    hlost, ok_bind, if_pos rfl]⟩

/-- The turn of an abandoned run raises what reaping raises, and goes to the rows otherwise. -/
theorem recoverRun_dead (host : Host) {rid : RunId} {run : Run} {aid : AttemptId} {a : Attempt}
    (named : run.attemptId = some aid) (ha : s.attempts.get? aid = some a) (expired : a.leaseExpiry ≤ now)
    (dead : machine.alive a.process = false) :
    (∀ e, machine.reap rid = some e → recoverRun host machine s rid run now = .error e) ∧
    (machine.reap rid = none →
      recoverRun host machine s rid run now = recoverAttempt host machine s rid aid false now) := by
  have late : ¬now < a.leaseExpiry := Nat.not_lt.mpr expired
  have reaped : machine.reapError rid false = machine.reap rid := if_neg Bool.false_ne_true
  constructor
  · intro e reaps
    simp only [recoverRun, named, ha, if_neg late, dead, reaped, reaps]
  · intro reaps
    simp only [recoverRun, named, ha, if_neg late, dead, reaped, reaps]

/-- The turn of an abandoned run goes through exactly if the run is recoverable. -/
theorem recoverRun_commits {rid : RunId} {run : Run} (hrun : s.runs.get? rid = some run)
    (abandoned : s.Abandoned machine now rid) :
    (∃ s', recoverRun host machine s rid run now = .ok s') ↔ s.Recoverable host machine rid := by
  obtain ⟨run', aid, a, hrun', -, named, ha, expired, dead⟩ := abandoned
  cases hrun.symm.trans hrun'
  obtain ⟨raises, goes⟩ := recoverRun_dead host named ha expired dead
  cases reaps : machine.reap rid with
  | some e =>
      rw [raises e reaps]
      refine iff_of_false (fun h => ?_) fun recoverable => ?_
      · obtain ⟨_, h⟩ := h
        cases h
      · cases reaps.symm.trans recoverable.reaped
  | none =>
      obtain ⟨t, hlost⟩ := markLost_commits now hrun
      obtain ⟨operations, -, row, hrow⟩ := markLost_kept hrun hlost
      have attempt : recoverAttempt host machine s rid aid false now = settleLost host machine
          (t.revokeGrants rid ((t.continuations rid).filterMap fun e => e.2.grantId)) rid aid
          ((t.continuations rid).map Prod.fst) now := by
        simp only [recoverAttempt, Store.run_eq_ok.mpr hrun, ok_bind, if_neg (not_not.mpr named), hlost,
          if_neg Bool.false_ne_true]
      have saved : ∀ oid o, t.operations.get? oid = some o → oid ∈ (t.continuations rid).map Prod.fst →
          o.metadata.protocolContinuation ≠ none := fun _ _ => Store.saved_of_continuations
      rw [goes reaps, attempt]
      let revoked := t.revokeGrants rid ((t.continuations rid).filterMap fun e => e.2.grantId)
      refine (settleLost_commits (s := revoked) hrow saved).trans
        ⟨fun known => ⟨reaps, fun oid o ho => ?_⟩, fun recoverable oid o ho => ?_⟩
      · exact known oid o (operations ▸ ho)
      · exact recoverable.known oid o (operations ▸ ho)

/-- What the turn of an abandoned run makes of an operation that was running: it is unknown, unless
its tool reads. -/
theorem recoverRun_loses {rid : RunId} {run : Run} {oid : OperationId} {o : Operation}
    (abandoned : s.Abandoned machine now rid) (hrun : s.runs.get? rid = some run)
    (h : recoverRun host machine s rid run now = .ok s') (ho : s.operations.get? oid = some o)
    (owner : o.runId = rid) (running : o.state = .running)
    (unsaved : s.continuation rid oid o = false) (notWrite : o.toolId ≠ .writeFile)
    (notPatch : o.toolId ≠ .applyPatch)
    (effectful : ∀ spec, host.registry o.toolId o.toolRevision = some spec → spec.effect ≠ .read) :
    ∃ o', s'.operations.get? oid = some o' ∧ o'.runId = rid ∧ o'.state = .unknown := by
  obtain ⟨run', aid, a, hrun', -, named, ha, expired, dead⟩ := abandoned
  cases hrun.symm.trans hrun'
  rcases recoverRun_eq_ok hrun h with ⟨-, unexpired⟩ | ⟨aid', a', t, named', ha', hlost, left⟩
  · exact absurd (unexpired aid a named ha) (Nat.not_lt.mpr expired)
  cases named.symm.trans named'
  cases ha.symm.trans ha'
  rcases left with ⟨alive, -⟩ | ⟨-, hsettle⟩
  · rw [dead] at alive
    cases alive
  obtain ⟨operations, interactions, -⟩ := markLost_kept hrun hlost
  replace ho : t.operations.get? oid = some o := operations ▸ ho
  obtain ⟨rows, unknown, loop, hrelease⟩ := settleLost_eq_ok hsettle
  have same : s'.operations = rows := by
    obtain ⟨-, -, ⟨-, _, _, -, rfl⟩ | ⟨-, rfl⟩⟩ := releaseLost_eq_ok hrelease <;> rfl
  obtain ⟨o', ho', decided⟩ := loop.decided (oid, o) (Store.mem_operationsOf.mpr ⟨ho, owner⟩)
  have found : rows.get? oid = some o' := ho'
  have left : oid ∉ (t.continuations rid).map Prod.fst := by
    intro member
    obtain ⟨⟨oid', o₁⟩, hx, rfl⟩ := List.mem_map.mp member
    obtain ⟨hmem, saved⟩ := List.mem_filter.mp hx
    cases ho.symm.trans (Store.mem_operationsOf.mp hmem).1
    rw [Store.continuation, interactions] at saved
    rw [Store.continuation, saved] at unsaved
    cases unsaved
  refine ⟨o', same ▸ found, decided.owner.trans owner, ?_⟩
  rcases decided.lost running left notWrite notPatch with unknown | ⟨-, spec, registered, reads⟩
  · exact unknown
  · exact absurd reads (effectful spec registered)

/-! ## A call of `recover` -/

theorem Store.Abandoned.untouched {rid : RunId} (leased : s.Leased) (u : Untouched rid s t)
    (abandoned : t.Abandoned machine now rid) : s.Abandoned machine now rid := by
  obtain ⟨run, aid, a, hrun, listed, named, ha, expired, dead⟩ := abandoned
  rw [u.run] at hrun
  obtain ⟨a', ha', owner, -⟩ := leased.named rid run aid hrun named
  cases (u.attempts aid a' ha' owner).symm.trans ha
  exact ⟨run, aid, _, hrun, listed, named, ha', expired, dead⟩

theorem Store.Recoverable.untouched {rid : RunId} (u : Untouched rid s t)
    (recoverable : s.Recoverable host machine rid) : t.Recoverable host machine rid where
  reaped := recoverable.reaped
  known oid o ho owner := recoverable.known oid o ((u.operations oid o owner).mp ho) owner

/-- A call of `recover` goes through if every abandoned run is recoverable. -/
theorem recover_commits (leased : s.Leased)
    (recoverable : ∀ rid, s.Abandoned machine now rid → s.Recoverable host machine rid) :
    ∃ s', recover host machine s now = .ok s' := by
  refine foldlM_commits (P := fun (t : Store) rid run => t.Leased ∧ t.runs.get? rid = some run ∧
    run.status ∈ MiHarness.recoverable ∧
      (t.Abandoned machine now rid → t.Recoverable host machine rid))
    (Store.nodup_runsWith _) (fun e he => ?_) ?_
  · obtain ⟨hrun, listed⟩ := Store.mem_runsWith.mp he
    exact ⟨leased, hrun, listed, recoverable e.1⟩
  rintro ⟨rid, run⟩ - t ⟨leased, hrun, listed, recoverable⟩
  have commits : ∃ t', recoverRun host machine t rid run now = .ok t' := by
    by_cases abandoned : t.Abandoned machine now rid
    · exact (recoverRun_commits hrun abandoned).mpr (recoverable abandoned)
    · refine recoverRun_idle hrun fun aid a named ha expired => Bool.not_eq_false _ ▸ fun dead => ?_
      exact abandoned ⟨run, aid, a, hrun, listed, named, ha, expired, dead⟩
  obtain ⟨t', hturn⟩ := commits
  have writes := recoverRun_writes (D := {}) hrun listed (fun _ => trivial)
    (fun _ _ _ _ _ => trivial) hturn
  refine ⟨t', hturn, fun e' _ ne known => ?_⟩
  obtain ⟨-, hrun', listed', recoverable'⟩ := known
  have u := (recoverRun_untouched leased hrun hturn).1 e'.1 ne
  exact ⟨writes.invariant (fun _ _ leased w => leased.write w) leased, u.run.trans hrun', listed',
    fun abandoned => (recoverable' (abandoned.untouched leased u)).untouched u⟩

/-- What a call of `recover` makes of an operation of an abandoned run that was running. -/
theorem recover_loses {oid : OperationId} {o : Operation} (leased : s.Leased)
    (abandoned : s.Abandoned machine now o.runId) (h : recover host machine s now = .ok s')
    (ho : s.operations.get? oid = some o) (running : o.state = .running)
    (unsaved : s.continuation o.runId oid o = false) (notWrite : o.toolId ≠ .writeFile)
    (notPatch : o.toolId ≠ .applyPatch)
    (effectful : ∀ spec, host.registry o.toolId o.toolRevision = some spec → spec.effect ≠ .read) :
    ∃ o', s'.operations.get? oid = some o' ∧ o'.state = .unknown := by
  obtain ⟨run, aid, a, hrun, listed, named, ha, expired, dead⟩ := abandoned
  obtain ⟨a', ha', owner, -⟩ := leased.named o.runId run aid hrun named
  cases ha.symm.trans ha'
  obtain ⟨t, t', u, recovers, -, hturn, -, later⟩ := recover_turn leased hrun listed h
  have hrunT : t.runs.get? o.runId = some run := u.run.trans hrun
  have abandonedT : t.Abandoned machine now o.runId :=
    ⟨run, aid, a, hrunT, listed, named, u.attempts aid a ha owner, expired, dead⟩
  have unsavedT : t.continuation o.runId oid o = false := by
    rw [Store.continuation, recovers.interactions]
    exact unsaved
  obtain ⟨o', ho', owner', unknown⟩ := recoverRun_loses abandonedT hrunT hturn
    ((u.operations oid o rfl).mpr ho) rfl running unsavedT notWrite notPatch effectful
  exact ⟨o', (later.operations oid o' owner').mpr ho', unknown⟩

end MiHarness

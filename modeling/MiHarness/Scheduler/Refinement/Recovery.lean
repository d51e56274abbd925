import MiHarness.Scheduler.Refinement.Transition

/-!
# Recovery and reconciliation refine the row protocol
-/

namespace MiHarness

open Library

variable {D : Discipline} {now : Time} {s s' : Store}

/-! ## The operations of a lost attempt -/

/-- A turn of the loop of `recover` over the operations either leaves the operation as it is, or
decides an operation that was running. -/
theorem recoverOperation_eq_ok {host : Host} {machine : Machine} {continuations : List OperationId}
    {b b' : Bool} {id : OperationId} {o : Operation}
    (h : recoverOperation host machine continuations (b, s) id o now = .ok (b', s')) :
    (s' = s ∧ (o.state = .running → id ∈ continuations) ∧ b' = (b || decide (o.state = .unknown))) ∨
      o.state = .running ∧ ∃ patch : OperationPatch, patch.metadata = none ∧ patch.Records ∧
        (patch.state = some .prepared →
          ∃ spec, host.registry o.toolId o.toolRevision = some spec ∧ spec.effect = .read) ∧
        (patch.state = some .succeeded → o.toolId = .writeFile ∨ o.toolId = .applyPatch) ∧
        (patch.state = some .unknown ∧ b' = true ∨
          (patch.state = some .succeeded ∨ patch.state = some .prepared) ∧ b' = b) ∧
        s' = { s with operations := s.operations.modify id patch.apply } := by
  have lose : ∀ {patch : OperationPatch} {c : Bool}, (do
      let s ← s.updateOperation id o.revision patch none now
      Except.ok (c, s)) = .ok (b', s') →
      b' = c ∧ s' = { s with operations := s.operations.modify id patch.apply } := by
    intro patch c h
    obtain ⟨t, hupdate, h⟩ := bind_eq_ok.mp h
    obtain ⟨-, -, rfl⟩ := Store.updateOperation_eq_ok hupdate
    cases h
    exact ⟨rfl, rfl⟩
  unfold recoverOperation at h
  dsimp only at h
  split at h
  · rename_i idle
    cases h
    exact .inl ⟨rfl, fun e => absurd e idle, rfl⟩
  rename_i started
  rw [not_not] at started
  split at h
  · rename_i kept
    cases h
    exact .inl ⟨rfl, fun _ => kept, by simp [started]⟩
  split at h
  · obtain ⟨rfl, rfl⟩ := lose h
    exact .inr ⟨started, _, rfl, .opened rfl rfl, by simp, by simp, .inl ⟨rfl, rfl⟩, rfl⟩
  split at h
  · rename_i verified
    obtain ⟨rfl, rfl⟩ := lose h
    rw [Machine.verifiesWrite, Bool.and_eq_true, decide_eq_true_eq] at verified
    exact .inr ⟨started, _, rfl, .closed rfl rfl, by simp, fun _ => verified.1,
      .inr ⟨.inl rfl, rfl⟩, rfl⟩
  obtain ⟨spec, hspec, h⟩ := bind_eq_ok.mp h
  split at h
  · rename_i reads
    obtain ⟨rfl, rfl⟩ := lose h
    exact .inr ⟨started, _, rfl, .opened rfl rfl, fun _ => ⟨spec, Host.tool_eq_ok hspec, reads⟩,
      by simp, .inr ⟨.inr rfl, rfl⟩, rfl⟩
  · obtain ⟨rfl, rfl⟩ := lose h
    exact .inr ⟨started, _, rfl, .opened rfl rfl, by simp, by simp, .inl ⟨rfl, rfl⟩, rfl⟩

/-- What recovery has made of one operation of the run. -/
structure Decided (host : Host) (continuations : List OperationId) (unknown : Bool)
    (id : OperationId) (o o' : Operation) : Prop where
  owner : o'.runId = o.runId
  running : o'.state = .running → o.state = .running ∧ id ∈ continuations
  unknown : unknown = false → o'.state ≠ .unknown
  kept : o.state = .unknown → o'.state = .unknown
  lost : o.state = .running → id ∉ continuations → o.toolId ≠ .writeFile → o.toolId ≠ .applyPatch →
    o'.state = .unknown ∨ o'.state = .prepared ∧
      ∃ spec, host.registry o.toolId o.toolRevision = some spec ∧ spec.effect = .read
  accepted : o'.metadata = o.metadata

/-- The loop of `recover` over the operations. -/
structure OperationsRecovered (host : Host) (continuations : List OperationId)
    (l : List (OperationId × Operation)) (s s' : Store) (b b' : Bool) : Prop where
  frame : ∃ operations, s' = { s with operations }
  flag : b = true → b' = true
  others : ∀ id, id ∉ l.map Prod.fst → s'.operations.get? id = s.operations.get? id
  decided : ∀ e ∈ l, ∃ o', s'.operations.get? e.1 = some o' ∧
    Decided host continuations b' e.1 e.2 o'
  found : b' = true → b = true ∨
    ∃ e ∈ l, ∃ o', s'.operations.get? e.1 = some o' ∧ o'.state = .unknown

theorem recoverOperations {host : Host} {machine : Machine} {continuations : List OperationId} :
    ∀ {l : List (OperationId × Operation)} {s s' : Store} {b b' : Bool},
      (l.map Prod.fst).Nodup → (∀ e ∈ l, s.operations.get? e.1 = some e.2) →
      l.foldlM (fun acc e => recoverOperation host machine continuations acc e.1 e.2 now) (b, s) =
        .ok (b', s') → OperationsRecovered host continuations l s s' b b'
  | [], s, s', b, b', _, _, h => by
      cases h
      exact ⟨⟨s.operations, rfl⟩, id, fun _ _ => rfl, by simp, .inl⟩
  | (id, o) :: l, s, s', b, b', distinct, rows, h => by
      rw [List.foldlM_cons] at h
      obtain ⟨⟨c, t⟩, hturn, h⟩ := bind_eq_ok.mp h
      rw [List.map_cons, List.nodup_cons] at distinct
      have ho := rows (id, o) (List.mem_cons_self ..)
      have other : ∀ e ∈ l, e.1 ≠ id := fun e he heq =>
        distinct.1 (List.mem_map.mpr ⟨e, he, heq⟩)
      -- the turn of this operation
      have turn : (∃ operations, t = { s with operations }) ∧ (b = true → c = true) ∧
          (∀ id', id' ≠ id → t.operations.get? id' = s.operations.get? id') ∧
          (∃ o', t.operations.get? id = some o' ∧ Decided host continuations c id o o') ∧
          (c = true → b = true ∨ ∃ o', t.operations.get? id = some o' ∧ o'.state = .unknown) := by
        rcases recoverOperation_eq_ok hturn with ⟨rfl, kept, rfl⟩ | ⟨started, patch, hmeta, -, reads, verified, hstate, rfl⟩
        · refine ⟨⟨t.operations, rfl⟩, by simp +contextual, fun _ _ => rfl,
            ⟨o, ho, rfl, fun e => ⟨e, kept e⟩, ?_, fun e => e, fun e left => absurd (kept e) left,
              rfl⟩, ?_⟩
          · intro flag e
            simp [e] at flag
          · intro flag
            rw [Bool.or_eq_true, decide_eq_true_eq] at flag
            exact flag.imp_right fun e => ⟨o, ho, e⟩
        · have hget : (s.operations.modify id patch.apply).get? id = some (patch.apply o) := by
            rw [Table.get?_modify_self, ho]
            rfl
          refine ⟨⟨_, rfl⟩, ?_, fun _ hne => Table.get?_modify_ne _ _ hne,
            ⟨patch.apply o, hget, rfl, ?_, ?_, ?_, ?_, ?_⟩, ?_⟩
          · rcases hstate with ⟨-, rfl⟩ | ⟨-, rfl⟩ <;> simp
          · rcases hstate with ⟨e, -⟩ | ⟨e | e, -⟩ <;> simp [OperationPatch.apply, e]
          · rcases hstate with ⟨e, rfl⟩ | ⟨e | e, -⟩ <;> simp [OperationPatch.apply, e]
          · exact fun e => absurd (started.symm.trans e) (by decide)
          · intro _ _ notWrite notPatch
            rcases hstate with ⟨e, -⟩ | ⟨e | e, -⟩
            · exact .inl (by simp [OperationPatch.apply, e])
            · exact ((verified e).elim notWrite notPatch).elim
            · exact .inr ⟨by simp [OperationPatch.apply, e], reads e⟩
          · simp [OperationPatch.apply, hmeta]
          · rcases hstate with ⟨e, -⟩ | ⟨-, rfl⟩
            · exact fun _ => .inr ⟨_, hget, by simp [OperationPatch.apply, e]⟩
            · exact .inl
      obtain ⟨⟨operations, rfl⟩, flag, others, ⟨o', ho', dec⟩, found⟩ := turn
      have rest := recoverOperations distinct.2
        (fun e he => (others e.1 (other e he)).trans (rows e (List.mem_cons_of_mem _ he))) h
      obtain ⟨operations', rfl⟩ := rest.frame
      have kept := rest.others id distinct.1
      refine ⟨⟨operations', rfl⟩, fun e => rest.flag (flag e), fun id' hne => ?_, ?_, fun e => ?_⟩
      · rw [List.map_cons, List.mem_cons, not_or] at hne
        exact (rest.others id' hne.2).trans (others id' hne.1)
      · intro e he
        rcases List.mem_cons.mp he with rfl | he
        · refine ⟨o', kept.trans ho', dec.owner, dec.running, fun clear => dec.unknown ?_, dec.kept,
            dec.lost, dec.accepted⟩
          cases hc : c with
          | false => rfl
          | true => rw [rest.flag hc] at clear; cases clear
        · exact rest.decided e he
      · rcases rest.found e with e | ⟨e', he', found'⟩
        · refine (found e).imp_right fun ⟨o₁, ho₁, unknown⟩ => ?_
          exact ⟨(id, o), List.mem_cons_self .., o₁, kept.trans ho₁, unknown⟩
        · exact .inr ⟨e', List.mem_cons_of_mem _ he', found'⟩

/-- The tools that only read may be called again. -/
def Host.Repeats (host : Host) (D : Discipline) : Prop :=
  ∀ tool version spec, host.registry tool version = some spec → spec.effect = .read →
    D.scope.repeats tool version

theorem recoverOperations_writes {host : Host} {machine : Machine}
    {continuations : List OperationId} {l : List (OperationId × Operation)} {rid : RunId} {run : Run}
    {b b' : Bool} (distinct : (l.map Prod.fst).Nodup)
    (rows : ∀ e ∈ l, s.operations.get? e.1 = some e.2 ∧ e.2.runId = rid)
    (hrun : s.runs.get? rid = some run) (status : run.status ∈ recoverable)
    (stopped : run.status ≠ .running) (acts : D.scope.acts rid) (repeats : host.Repeats D)
    (h : l.foldlM (fun acc e => recoverOperation host machine continuations acc e.1 e.2 now) (b, s) =
      .ok (b', s')) : Writes D now s s' := by
  refine (foldlM_keyed
    (R := fun u v : Bool × Store => Writes D now u.2 v.2 ∧ v.2.runs = u.2.runs)
    (P := fun u id o => u.2.operations.get? id = some o ∧ o.runId = rid)
    (fun _ => ⟨.refl, rfl⟩) (fun _ _ _ h k => ⟨h.1.trans k.1, k.2.trans h.2⟩) distinct h rows ?_).1
  rintro ⟨id, o⟩ - ⟨c, t⟩ ⟨c', t'⟩ before ⟨ho, owner⟩ hturn
  rcases recoverOperation_eq_ok hturn with ⟨rfl, -, -⟩ | ⟨started, patch, hmeta, records, reads, -, hstate, rfl⟩
  · exact ⟨⟨.refl, rfl⟩, fun _ _ _ hP => hP⟩
  · have row : t.runs.get? o.runId = some run := by rw [owner, before.2]; exact hrun
    have decided : patch.state = some .unknown ∨ patch.state = some .succeeded ∨
        patch.state = some .prepared ∧ run.status ≠ .running :=
      hstate.elim (fun e => .inl e.1) fun e =>
        .inr (e.1.imp_right fun prepared => ⟨prepared, stopped⟩)
    have again : patch.state = some .prepared → D.scope.repeats o.toolId o.toolRevision := by
      intro prepared
      obtain ⟨spec, hspec, isRead⟩ := reads prepared
      exact repeats _ _ spec hspec isRead
    refine ⟨⟨(Write.operationMoved ho (.lost started row status decided hmeta (owner ▸ acts) again)
      records).writes, rfl⟩, ?_⟩
    exact fun e' _ hne hP => ⟨(Table.get?_modify_ne _ _ hne).trans hP.1, hP.2⟩

/-! ## Recovery of a run -/

theorem releaseLost_writes {rid : RunId} {unknown : Bool} (acts : D.scope.acts rid)
    (found : unknown = true → s.HasUnknown rid)
    (clear : unknown = false → ¬s.HasUnknown rid)
    (h : releaseLost s rid unknown now = .ok s') : Writes D now s s' := by
  simp only [releaseLost, bind_eq_ok, Store.run_eq_ok] at h
  obtain ⟨run, hrun, h⟩ := h
  split at h
  · rename_i status
    split at h
    · rename_i flag
      obtain ⟨row, events, -, -, -, rfl⟩ := transition_moved h rfl
      exact (Write.runMoved hrun (.reviewed (.inr status) (fun _ => found flag) acts)).writes.then
        (.events events)
    · rename_i flag
      obtain ⟨row, events, -, -, -, rfl⟩ := transition_moved h rfl
      exact (Write.runMoved hrun (.requeued status (clear (Bool.not_eq_true _ ▸ flag)) acts)).writes.then
        (.events events)
  · cases h
    exact .refl

theorem settleLost_writes {host : Host} {machine : Machine} {rid : RunId} {aid : AttemptId}
    {continuations : List OperationId} {run : Run} (hrun : s.runs.get? rid = some run)
    (status : run.status ∈ recoverable) (stopped : run.status ≠ .running)
    (named : run.attemptId = some aid) (acts : D.scope.acts rid) (repeats : host.Repeats D)
    (h : settleLost host machine s rid aid continuations now = .ok s') : Writes D now s s' := by
  obtain ⟨⟨unknown, t⟩, hloop, hrelease⟩ := bind_eq_ok.mp h
  have ended : Writes D now s (s.endAttempt aid "worker_lost" now) :=
    (Write.attemptEnded "worker_lost" ⟨rid, run, hrun, named, stopped, acts⟩).writes
  have hrun' : (s.endAttempt aid "worker_lost" now).runs.get? rid = some run := hrun
  generalize s.endAttempt aid "worker_lost" now = e at ended hloop hrun'
  have rows : ∀ x ∈ e.operationsOf rid, e.operations.get? x.1 = some x.2 ∧ x.2.runId = rid :=
    fun x hx => Store.mem_operationsOf.mp hx
  have loop := recoverOperations (Table.nodup_select _ _) (fun x hx => (rows x hx).1) hloop
  have decided := recoverOperations_writes (D := D) (Table.nodup_select _ _) rows hrun' status
    stopped acts repeats hloop
  obtain ⟨operations, rfl⟩ := loop.frame
  refine (ended.trans decided).trans (releaseLost_writes acts (fun flag => ?_) (fun flag => ?_) hrelease)
  · obtain ⟨x, hx, o', ho', state⟩ := (loop.found flag).resolve_left (by simp)
    obtain ⟨o'', ho'', dec⟩ := loop.decided x hx
    cases ho'.symm.trans ho''
    exact ⟨x.1, o', ho', dec.owner.trans (rows x hx).2, state⟩
  · rintro ⟨id, o', ho', owner, state⟩
    by_cases listed : id ∈ (e.operationsOf rid).map Prod.fst
    · obtain ⟨x, hx, rfl⟩ := List.mem_map.mp listed
      obtain ⟨o'', ho'', dec⟩ := loop.decided x hx
      cases ho'.symm.trans ho''
      exact dec.unknown flag state
    · have before : e.operations.get? id = some o' := (loop.others id listed).symm.trans ho'
      exact listed (List.mem_map.mpr ⟨(id, o'), Store.mem_operationsOf.mpr ⟨before, owner⟩, rfl⟩)

theorem recoverAttempt_writes {host : Host} {machine : Machine} {rid : RunId} {aid : AttemptId}
    {alive : Bool} {run : Run} {attempt : Attempt} (hrun : s.runs.get? rid = some run)
    (status : run.status ∈ recoverable) (hattempt : s.attempts.get? aid = some attempt)
    (expired : attempt.leaseExpiry ≤ now)
    (acts : run.attemptId = some aid → alive = false → D.scope.acts rid) (repeats : host.Repeats D)
    (h : recoverAttempt host machine s rid aid alive now = .ok s') : Writes D now s s' := by
  simp only [recoverAttempt, bind_eq_ok, Store.run_eq_ok] at h
  obtain ⟨row, hrow, h⟩ := h
  cases hrun.symm.trans hrow
  split at h
  · cases h
    exact .refl
  rename_i named
  rw [not_not] at named
  obtain ⟨t, hlost, h⟩ := bind_eq_ok.mp h
  have lost : Writes D now s t ∧ ∃ row, t.runs.get? rid = some row ∧ row.status ∈ recoverable ∧
      row.status ≠ .running ∧ row.attemptId = some aid := by
    unfold markLost at hlost
    split at hlost
    · rename_i isRunning
      obtain ⟨-, events, -, -, -, rfl⟩ := transition_moved hlost rfl
      refine ⟨(Write.runMoved hrun (.lost isRunning named hattempt expired)).writes.then
        (.events events),
        RunPatch.apply { status := some .recovering } run, ?_, ?_⟩
      · rw [Table.get?_modify_self, hrun]
        rfl
      · exact ⟨by simp [RunPatch.apply, recoverable], by simp [RunPatch.apply], named⟩
    · rename_i stopped
      cases hlost
      exact ⟨.refl, run, hrun, status, stopped, named⟩
  obtain ⟨writes, row, hrow', status', stopped, named'⟩ := lost
  have revoked : Writes D now t (t.revokeGrants rid
      ((t.continuations rid).filterMap fun e => e.2.grantId)) := (Write.grantsRevoked rid _).writes
  split at h
  · cases h
    exact writes.trans revoked
  · rename_i gone
    have acts := acts named (Bool.not_eq_true _ ▸ gone)
    exact (writes.trans revoked).trans
      (settleLost_writes hrow' status' stopped named' acts repeats h)

/-- The process of the last attempt of the run has exited. -/
def Store.Exited (s : Store) (machine : Machine) (rid : RunId) : Prop :=
  ∃ run aid attempt, s.runs.get? rid = some run ∧ run.attemptId = some aid ∧
    s.attempts.get? aid = some attempt ∧ machine.alive attempt.process = false

theorem recoverRun_writes {host : Host} {machine : Machine} {rid : RunId} {run : Run}
    (hrun : s.runs.get? rid = some run) (status : run.status ∈ recoverable)
    (acts : s.Exited machine rid → D.scope.acts rid) (repeats : host.Repeats D)
    (h : recoverRun host machine s rid run now = .ok s') : Writes D now s s' := by
  unfold recoverRun at h
  split at h
  · cases h
    exact .refl
  rename_i aid _
  split at h
  · cases h
    exact .refl
  rename_i attempt hattempt
  split at h
  · cases h
    exact .refl
  rename_i expired
  dsimp only at h
  split at h
  · cases h
  · exact recoverAttempt_writes hrun status hattempt (Nat.not_lt.mp expired)
      (fun named gone => acts ⟨run, aid, attempt, hrun, named, hattempt, gone⟩) repeats h

/-! ## Reconciliation -/

theorem Store.undecided_eq_true {rid : RunId} (h : s.undecided rid = true) :
    ∃ id o, s.operations.get? id = some o ∧ o.runId = rid ∧ o.state = .unknown ∧
      o.metadata.unresolvedAccepted = false := by
  obtain ⟨id, o, ho, hb⟩ := Table.any_iff.mp h
  simp only [Bool.and_eq_true, decide_eq_true_eq, Bool.not_eq_true'] at hb
  exact ⟨id, o, ho, hb.1.1, hb.1.2, hb.2⟩

theorem Store.undecided_eq_false {rid : RunId} (h : s.undecided rid = false) :
    ∀ id o, s.operations.get? id = some o → o.runId = rid → o.state = .unknown →
      o.metadata.unresolvedAccepted = true := by
  intro id o ho owner state
  simpa [owner, state] using Table.any_eq_false.mp h id o ho

/-- The patch of a decision: it resumes the run with the operation decided, or accepts that the
operation stays unknown. -/
theorem reconcilePatch_eq_ok {machine : Machine} {id : OperationId} {o : Operation} {actor : OwnerId}
    {request : ReconcileRequest} {patch : OperationPatch} {permitted : AllowedAction}
    (h : reconcilePatch machine id o actor request now = .ok (patch, permitted)) :
    permitted = .resume ∧ patch.metadata = none ∧ patch.Records ∧
        (patch.state = some .succeeded ∨
          patch.state = some .prepared ∧ o.metadata.provenNotStarted = true ∧
            request.decision = .confirmNotExecuted) ∨
      permitted = .endWithoutSuccess ∧ patch = o.acceptPatch actor := by
  unfold reconcilePatch at h
  split at h
  · rename_i decision
    simp only [bind_eq_ok, require_eq_ok, exists_const, Except.ok.injEq, Prod.mk.injEq] at h
    obtain ⟨-, -, -, -, rfl, rfl⟩ := h
    exact .inl ⟨rfl, rfl, .closed rfl rfl, .inl rfl⟩
  · rename_i decision
    simp only [bind_eq_ok, require_eq_ok, exists_const, Except.ok.injEq, Prod.mk.injEq] at h
    obtain ⟨proven, rfl, rfl⟩ := h
    exact .inl ⟨rfl, rfl, .opened rfl rfl, .inr ⟨rfl, proven, decision⟩⟩
  · simp only [Except.ok.injEq, Prod.mk.injEq] at h
    obtain ⟨rfl, rfl⟩ := h
    exact .inr ⟨rfl, rfl⟩

theorem reconcileOperation_eq_ok {machine : Machine} {id : OperationId} {actor : OwnerId}
    {request : ReconcileRequest} {permitted : AllowedAction}
    (h : reconcileOperation machine s id actor request now = .ok (permitted, s')) :
    ∃ o patch, s.operations.get? id = some o ∧ o.state = .unknown ∧
      reconcilePatch machine id o actor request now = .ok (patch, permitted) ∧
      s' = { s with
        operations := s.operations.modify id patch.apply
        grants := s.grants.mapRows fun gid g => g.revoke o.runId [] gid } := by
  simp only [reconcileOperation, bind_eq_ok, require_eq_ok, Store.operation_eq_ok,
    exists_const] at h
  obtain ⟨o, ho, -, -, ⟨-, unknown⟩, -, -, ⟨patch, p⟩, hpatch, t, hupdate, h⟩ := h
  obtain ⟨-, -, rfl⟩ := Store.updateOperation_eq_ok hupdate
  cases h
  exact ⟨o, patch, ho, unknown, hpatch, rfl⟩

/-- The run of an operation under review, all of whose other unknown operations are accepted:
deciding the operation releases the run. -/
structure Store.Releases (s : Store) (oid : OperationId) (rid : RunId) (row : Run) : Prop where
  operation : ∃ o, s.operations.get? oid = some o ∧ o.runId = rid
  found : s.runs.get? rid = some row
  review : row.status = .needsReview
  last : ∀ id o, s.operations.get? id = some o → o.runId = rid → o.state = .unknown → id ≠ oid →
    o.metadata.unresolvedAccepted = true

theorem reconcile_writes {machine : Machine} {owner : OwnerId} {oid : OperationId}
    {request : ReconcileRequest}
    (answered : D.wholeBarrier → request.decision ≠ .acceptUnresolved → ∀ rid run,
      s.Releases oid rid run → ∀ id ∈ run.requiredInterrupts, s.Answered id)
    (confirms : request.decision = .confirmNotExecuted → D.scope.confirms oid)
    (h : reconcile machine s owner oid request now = .ok s') : Writes D now s s' := by
  simp only [reconcile, bind_eq_ok, require_eq_ok, Store.operation_eq_ok, Store.ownedRun_eq_ok,
    exists_const] at h
  obtain ⟨o, ho, run, ⟨hrun, -⟩, status, ⟨permitted, t⟩, hreconcile, h⟩ := h
  obtain ⟨row, patch, hrow, unknown, hpatch, rfl⟩ := reconcileOperation_eq_ok hreconcile
  cases ho.symm.trans hrow
  dsimp only at h
  rcases reconcilePatch_eq_ok hpatch with ⟨rfl, hmeta, records, hstate⟩ | ⟨rfl, rfl⟩
  · have proven : patch.state = some .prepared →
        o.metadata.provenNotStarted = true ∧ D.scope.confirms oid := by
      intro prepared
      rcases hstate with e | ⟨-, proven, decision⟩
      · cases e.symm.trans prepared
      · exact ⟨proven, confirms decision⟩
    have decided : patch.state = some .succeeded ∨ patch.state = some .prepared :=
      hstate.imp_right And.left
    split at h
    · rename_i release
      obtain ⟨clear, -, review⟩ := release
      have last : ∀ id o', s.operations.get? id = some o' → o'.runId = o.runId →
          o'.state = .unknown → id ≠ oid → o'.metadata.unresolvedAccepted = true :=
        fun id o' ho' owner' state hne => Store.undecided_eq_false clear id o'
          ((Table.get?_modify_ne _ _ hne).trans ho') owner' state
      obtain ⟨-, events, -, -, -, rfl⟩ := transition_moved h rfl
      have resumes : request.decision ≠ .acceptUnresolved := by
        intro e
        rw [reconcilePatch, e] at hpatch
        cases hpatch
      exact ((Write.released hrun review ho rfl unknown decided hmeta last (fun d =>
        answered d resumes o.runId run ⟨⟨o, ho, rfl⟩, hrun, review, last⟩) rfl proven records).writes.then
        (.grantsRevoked o.runId [])).then (.events events)
    split at h
    · rename_i ends
      cases ends.1
    · rename_i stays _
      cases h
      refine (Write.operationMoved ho (.reconciled unknown hrun status (fun review => ?_) decided
        hmeta proven) records).writes.then (.grantsRevoked o.runId [])
      have open' := not_and'.mp stays ⟨rfl, review⟩
      obtain ⟨id, o', ho', owner', state, -⟩ :=
        Store.undecided_eq_true ((Bool.not_eq_false _).mp open')
      have hne : id ≠ oid := by
        rintro rfl
        change (s.operations.modify id patch.apply).get? id = some o' at ho'
        rw [Table.get?_modify_self, ho] at ho'
        cases ho'
        rcases decided with e | e <;> simp [OperationPatch.apply, e] at state
      exact ⟨id, o', (Table.get?_modify_ne _ _ hne).symm.trans ho', owner', state, hne⟩
  · split at h
    · rename_i resumes
      cases resumes.2.1
    split at h
    · rename_i review
      obtain ⟨-, events, -, -, -, rfl⟩ := transition_moved h rfl
      let t : Store := { s with
        runs := s.runs.modify o.runId
          (RunPatch.apply { status := some .cancelling, cancelRequested := some true }) }
      have cancelling : Write D now s t :=
        .runMoved hrun (.cancelling (run.revision + 1) (by rw [review.2]; rfl) (by simp [review.2]))
      have row : t.runs.get? o.runId =
          some (RunPatch.apply { status := some .cancelling, cancelRequested := some true } run) := by
        rw [Table.get?_modify_self, hrun]
        rfl
      have accepted : Write D now t { t with
          operations := t.operations.modify oid (o.acceptPatch owner).apply } :=
        .operationMoved ho (.accepted unknown row rfl rfl rfl) (.noted rfl rfl)
      exact ((cancelling.writes.then accepted).then (.grantsRevoked o.runId [])).then
        (.events events)
    · rename_i other
      cases h
      have isCancelling : run.status = .cancelling :=
        status.resolve_left fun review => other ⟨rfl, review⟩
      exact (Write.operationMoved ho (.accepted unknown hrun isCancelling rfl rfl) (.noted rfl rfl)).writes.then
        (.grantsRevoked o.runId [])

end MiHarness

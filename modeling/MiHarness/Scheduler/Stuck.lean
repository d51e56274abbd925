import MiHarness.Scheduler.Lease
import MiHarness.Scheduler.Terminal

/-!
# Runs that recovery leaves behind

`recover` and then `finishIdle` go through the runs whose workers are lost and through the runs
that are being cancelled.  A run that is still under review or being cancelled afterwards needs
somebody to release it: a child that ends or an operation that `reconcile` accepts.

Each loop looks at one run at a time.  `Untouched` says that a turn of another run changes
nothing of a run, so that a loop does to a run what its own turn does.
-/

namespace MiHarness

open Library

variable {D : Discipline} {now : Time} {s s' t : Store} {host : Host} {machine : Machine}

/-! ## The turns of other runs -/

/-- Nothing of a run has changed. -/
structure Untouched (rid : RunId) (s t : Store) : Prop where
  run : t.runs.get? rid = s.runs.get? rid
  operations : ∀ oid o, o.runId = rid →
    (t.operations.get? oid = some o ↔ s.operations.get? oid = some o)
  attempts : ∀ aid a, s.attempts.get? aid = some a → a.runId = rid →
    t.attempts.get? aid = some a

theorem Untouched.refl {rid : RunId} : Untouched rid s s where
  run := rfl
  operations _ _ _ := Iff.rfl
  attempts _ _ h _ := h

theorem Untouched.trans {rid : RunId} {u : Store} (h : Untouched rid s t) (k : Untouched rid t u) :
    Untouched rid s u where
  run := k.run.trans h.run
  operations oid o owner := (k.operations oid o owner).trans (h.operations oid o owner)
  attempts aid a ha owner := k.attempts aid a (h.attempts aid a ha owner) owner

theorem transition_untouched {rid other : RunId} {status : RunStatus}
    {ctx : Option ExecutionContext} {reason : Option String} {extra : RunPatch} (ne : other ≠ rid)
    (h : transition s rid status ctx reason extra now = .ok s') : Untouched other s s' := by
  obtain ⟨-, attempts, operations⟩ := transition_frame h
  refine ⟨by rw [transition_runs h, Table.get?_modify_ne _ _ ne], fun oid o owner => ?_,
    fun aid a ha _ => by rw [attempts, ha]⟩
  rcases operations with same | ⟨-, closed⟩
  · rw [same]
  rw [closed, Table.get?_mapRows]
  constructor
  · intro ho
    obtain ⟨o, hget, rfl⟩ := Option.map_eq_some_iff.mp ho
    have kept : o.close rid now oid = o := by
      refine if_neg fun closes => ?_
      rw [Operation.close, if_pos closes] at owner
      exact ne (owner.symm.trans closes.1)
    rw [kept]
    exact hget
  · intro ho
    rw [ho, Option.map_some, Operation.close, if_neg fun closes => ne (owner.symm.trans closes.1)]

/-! ## Recovery -/

/-- What the turn of a run in `recover` comes to. -/
theorem recoverRun_eq_ok {rid : RunId} {run : Run} (hrun : s.runs.get? rid = some run)
    (h : recoverRun host machine s rid run now = .ok s') :
    (s' = s ∧ ∀ aid a, run.attemptId = some aid → s.attempts.get? aid = some a →
        now < a.leaseExpiry) ∨
      ∃ aid a t, run.attemptId = some aid ∧ s.attempts.get? aid = some a ∧
        markLost s rid run now = .ok t ∧
        (machine.alive a.process = true ∧
            s' = t.revokeGrants rid ((t.continuations rid).filterMap fun e => e.2.grantId) ∨
          machine.alive a.process = false ∧
            settleLost host machine
              (t.revokeGrants rid ((t.continuations rid).filterMap fun e => e.2.grantId)) rid aid
              ((t.continuations rid).map Prod.fst) now = .ok s') := by
  unfold recoverRun at h
  split at h
  · rename_i none
    cases h
    exact .inl ⟨rfl, fun _ _ named _ => by rw [none] at named; cases named⟩
  rename_i aid named
  split at h
  · rename_i none
    cases h
    refine .inl ⟨rfl, fun aid' a named' ha => ?_⟩
    cases named.symm.trans named'
    rw [none] at ha
    cases ha
  rename_i a ha
  split at h
  · rename_i unexpired
    cases h
    refine .inl ⟨rfl, fun aid' a' named' ha' => ?_⟩
    cases named.symm.trans named'
    cases ha.symm.trans ha'
    exact unexpired
  dsimp only at h
  split at h
  · cases h
  simp only [recoverAttempt, bind_eq_ok, Store.run_eq_ok] at h
  obtain ⟨row, hrow, h⟩ := h
  cases hrun.symm.trans hrow
  split at h
  · rename_i other
    exact absurd named other
  obtain ⟨t, hlost, h⟩ := bind_eq_ok.mp h
  refine .inr ⟨aid, a, t, named, ha, hlost, ?_⟩
  split at h
  · rename_i alive
    cases h
    exact .inl ⟨alive, rfl⟩
  · rename_i dead
    exact .inr ⟨(Bool.not_eq_true _).mp dead, h⟩

theorem markLost_eq_ok {rid : RunId} {run : Run} (h : markLost s rid run now = .ok t) :
    run.status = .running ∧ (∃ events, t = { s with
        runs := s.runs.modify rid (RunPatch.apply { status := some .recovering }), events }) ∨
      run.status ≠ .running ∧ t = s := by
  unfold markLost at h
  split at h
  · rename_i running
    obtain ⟨-, events, -, -, -, rfl⟩ := transition_moved h rfl
    exact .inl ⟨running, events, rfl⟩
  · rename_i stopped
    cases h
    exact .inr ⟨stopped, rfl⟩

theorem releaseLost_eq_ok {rid : RunId} {unknown : Bool}
    (h : releaseLost s rid unknown now = .ok s') : ∃ run, s.runs.get? rid = some run ∧
      (run.status = .recovering ∧ (∃ events status, (status = .needsReview ∨ status = .queued) ∧
          s' = { s with
            runs := s.runs.modify rid (RunPatch.apply { status := some status }), events }) ∨
        run.status ≠ .recovering ∧ s' = s) := by
  simp only [releaseLost, bind_eq_ok, Store.run_eq_ok] at h
  obtain ⟨run, hrun, h⟩ := h
  refine ⟨run, hrun, ?_⟩
  split at h
  · rename_i recovering
    split at h
    · obtain ⟨-, events, -, -, -, rfl⟩ := transition_moved h rfl
      exact .inl ⟨recovering, events, _, .inl rfl, rfl⟩
    · obtain ⟨-, events, -, -, -, rfl⟩ := transition_moved h rfl
      exact .inl ⟨recovering, events, _, .inr rfl, rfl⟩
  · rename_i other
    cases h
    exact .inr ⟨other, rfl⟩

theorem settleLost_eq_ok {rid : RunId} {aid : AttemptId} {continuations : List OperationId}
    (h : settleLost host machine s rid aid continuations now = .ok s') :
    ∃ operations unknown, OperationsRecovered host continuations (s.operationsOf rid)
        (s.endAttempt aid "worker_lost" now)
        { s.endAttempt aid "worker_lost" now with operations } false unknown ∧
      releaseLost { s.endAttempt aid "worker_lost" now with operations } rid unknown now = .ok s' := by
  obtain ⟨⟨unknown, t⟩, hloop, hrelease⟩ := bind_eq_ok.mp h
  have loop := recoverOperations (Table.nodup_select _ _)
    (fun x hx => (Store.mem_operationsOf.mp hx).1) hloop
  obtain ⟨operations, rfl⟩ := loop.frame
  exact ⟨operations, unknown, loop, hrelease⟩

/-- Nothing of the interactions and of the dependencies changes in `recover`. -/
structure Recovers (s t : Store) : Prop where
  interactions : t.interactions = s.interactions
  dependencies : t.dependencies = s.dependencies

theorem settleLost_untouched {rid : RunId} {aid : AttemptId} {a : Attempt}
    {continuations : List OperationId} (ha : s.attempts.get? aid = some a) (owner : a.runId = rid)
    (h : settleLost host machine s rid aid continuations now = .ok s') :
    (∀ other, other ≠ rid → Untouched other s s') ∧ Recovers s s' := by
  obtain ⟨operations, unknown, loop, hrelease⟩ := settleLost_eq_ok h
  have ended : ∀ other, other ≠ rid →
      Untouched other s { s.endAttempt aid "worker_lost" now with operations } := by
    intro other ne
    refine ⟨rfl, fun oid o owner' => ?_, fun aid' a' ha' owner' => ?_⟩
    · by_cases listed : oid ∈ (s.operationsOf rid).map Prod.fst
      · obtain ⟨x, hx, rfl⟩ := List.mem_map.mp listed
        obtain ⟨hget, howner⟩ := Store.mem_operationsOf.mp hx
        obtain ⟨o', ho', dec⟩ := loop.decided x hx
        refine iff_of_false (fun ho => ?_) fun ho => ?_
        · cases ho'.symm.trans ho
          exact ne (owner'.symm.trans (dec.owner.trans howner))
        · cases hget.symm.trans ho
          exact ne (owner'.symm.trans howner)
      · show operations.get? oid = some o ↔ _
        rw [loop.others oid listed]
        rfl
    · show (s.attempts.modify aid _).get? aid' = some a'
      rw [Table.get?_modify_ne, ha']
      rintro rfl
      cases ha.symm.trans ha'
      exact ne (owner'.symm.trans owner)
  obtain ⟨run, -, ⟨-, events, status, -, rfl⟩ | ⟨-, rfl⟩⟩ := releaseLost_eq_ok hrelease
  · refine ⟨fun other ne => (ended other ne).trans ?_, rfl, rfl⟩
    exact ⟨Table.get?_modify_ne _ _ ne, fun _ _ _ => Iff.rfl, fun _ _ ha _ => ha⟩
  · exact ⟨ended, rfl, rfl⟩

theorem recoverRun_untouched {rid : RunId} {run : Run} (leased : s.Leased)
    (hrun : s.runs.get? rid = some run) (h : recoverRun host machine s rid run now = .ok s') :
    (∀ other, other ≠ rid → Untouched other s s') ∧ Recovers s s' := by
  rcases recoverRun_eq_ok hrun h with ⟨rfl, -⟩ | ⟨aid, a, t, named, ha, hlost, left⟩
  · exact ⟨fun _ _ => .refl, rfl, rfl⟩
  obtain ⟨a', ha', owner, -⟩ := leased.named rid run aid hrun named
  cases ha.symm.trans ha'
  have lost : (∀ other, other ≠ rid → Untouched other s t) ∧ Recovers s t ∧
      t.attempts = s.attempts := by
    rcases markLost_eq_ok hlost with ⟨-, events, rfl⟩ | ⟨-, rfl⟩
    · exact ⟨fun _ ne => ⟨Table.get?_modify_ne _ _ ne, fun _ _ _ => Iff.rfl, fun _ _ ha _ => ha⟩,
        ⟨rfl, rfl⟩, rfl⟩
    · exact ⟨fun _ _ => .refl, ⟨rfl, rfl⟩, rfl⟩
  obtain ⟨untouched, recovers, attempts⟩ := lost
  have revoked : ∀ {except other}, Untouched other t (t.revokeGrants rid except) :=
    ⟨rfl, fun _ _ _ => Iff.rfl, fun _ _ ha _ => ha⟩
  rcases left with ⟨-, rfl⟩ | ⟨-, hsettle⟩
  · exact ⟨fun other ne => (untouched other ne).trans revoked, recovers.interactions,
      recovers.dependencies⟩
  · have ht : (t.revokeGrants rid ((t.continuations rid).filterMap fun e => e.2.grantId)).attempts.get?
        aid = some a := (congrArg (Table.get? · aid) attempts).trans ha
    obtain ⟨rest, recovers'⟩ := settleLost_untouched ht owner hsettle
    exact ⟨fun other ne => (untouched other ne).trans (revoked.trans (rest other ne)),
      recovers'.interactions.trans recovers.interactions,
      recovers'.dependencies.trans recovers.dependencies⟩

/-! ## The turn of a run in `recover` -/

/-- What `recover` leaves of a run whose worker is lost: its attempt has ended, and an operation
of it that is still running awaits the user. -/
structure Lost (s s' : Store) (rid : RunId) (run : Run) (aid : AttemptId) : Prop where
  row : ∃ r', s'.runs.get? rid = some r' ∧ r'.attemptId = some aid ∧
    (r'.status = .queued ∨ r'.status = .needsReview ∨
      r'.status = .cancelling ∧ run.status = .cancelling)
  ended : ∀ a, s'.attempts.get? aid = some a → a.endedAt ≠ none
  running : ∀ oid o', s'.operations.get? oid = some o' → o'.runId = rid → o'.state = .running →
    ∃ o, s.operations.get? oid = some o ∧ o.runId = rid ∧ o.state = .running ∧
      s.continuation rid oid o = true

theorem endAttempt_ended (s : Store) (now : Time) (aid : AttemptId) (reason : String) {a : Attempt}
    (h : (s.endAttempt aid reason now).attempts.get? aid = some a) : a.endedAt ≠ none := by
  rw [Store.endAttempt, Table.get?_modify_self] at h
  obtain ⟨a, -, rfl⟩ := Option.map_eq_some_iff.mp h
  split
  · simp
  · assumption

theorem settleLost_running {rid : RunId} {aid : AttemptId} {continuations : List OperationId}
    (h : settleLost host machine s rid aid continuations now = .ok s') (oid : OperationId)
    (o' : Operation) (ho' : s'.operations.get? oid = some o') (owner : o'.runId = rid)
    (running : o'.state = .running) :
    ∃ o, s.operations.get? oid = some o ∧ o.runId = rid ∧ o.state = .running ∧
      oid ∈ continuations := by
  obtain ⟨operations, unknown, loop, hrelease⟩ := settleLost_eq_ok h
  have same : s'.operations = operations := by
    obtain ⟨-, -, ⟨-, _, _, -, rfl⟩ | ⟨-, rfl⟩⟩ := releaseLost_eq_ok hrelease <;> rfl
  rw [same] at ho'
  by_cases listed : oid ∈ (s.operationsOf rid).map Prod.fst
  · obtain ⟨x, hx, rfl⟩ := List.mem_map.mp listed
    obtain ⟨hget, howner⟩ := Store.mem_operationsOf.mp hx
    obtain ⟨o'', ho'', dec⟩ := loop.decided x hx
    cases ho'.symm.trans ho''
    exact ⟨x.2, hget, howner, dec.running running⟩
  · have before : s.operations.get? oid = some o' := (loop.others oid listed).symm.trans ho'
    exact absurd (List.mem_map.mpr ⟨(oid, o'), Store.mem_operationsOf.mpr ⟨before, owner⟩, rfl⟩)
      listed

/-- The turn of a run whose process has exited. -/
theorem recoverRun_lost {rid : RunId} {run : Run} {aid : AttemptId} {a : Attempt}
    (hrun : s.runs.get? rid = some run) (listed : run.status ∈ recoverable)
    (named : run.attemptId = some aid) (ha : s.attempts.get? aid = some a)
    (expired : a.leaseExpiry ≤ now) (dead : machine.alive a.process = false)
    (h : recoverRun host machine s rid run now = .ok s') : Lost s s' rid run aid := by
  rcases recoverRun_eq_ok hrun h with ⟨-, unexpired⟩ | ⟨aid', a', t, named', ha', hlost, left⟩
  · exact absurd (unexpired aid a named ha) (Nat.not_lt.mpr expired)
  cases named.symm.trans named'
  cases ha.symm.trans ha'
  rcases left with ⟨alive, -⟩ | ⟨-, hsettle⟩
  · rw [dead] at alive
    cases alive
  -- The first write changes only the row of the run.
  have lost : t.operations = s.operations ∧ t.interactions = s.interactions ∧
      ∃ row, t.runs.get? rid = some row ∧ row.attemptId = some aid ∧
        (row.status = .recovering ∨ row.status = .cancelling ∧ run.status = .cancelling) := by
    rcases markLost_eq_ok hlost with ⟨-, events, rfl⟩ | ⟨stopped, rfl⟩
    · refine ⟨rfl, rfl, RunPatch.apply { status := some .recovering } run, ?_, named, .inl rfl⟩
      rw [Table.get?_modify_self, hrun]
      rfl
    · refine ⟨rfl, rfl, run, hrun, named, ?_⟩
      simp only [recoverable, List.mem_cons, List.not_mem_nil, or_false] at listed
      rcases listed with h | h | h
      · exact absurd h stopped
      · exact .inl h
      · exact .inr ⟨h, h⟩
  obtain ⟨operations, interactions, row, hrow, rowNamed, status⟩ := lost
  refine ⟨?_, ?_, fun oid o' ho' owner running => ?_⟩
  · obtain ⟨ops, unknown, -, hrelease⟩ := settleLost_eq_ok hsettle
    obtain ⟨row', hrow', final⟩ := releaseLost_eq_ok hrelease
    have same : row' = row := Option.some.inj (hrow'.symm.trans hrow)
    rw [same] at final
    rcases final with ⟨-, events, target, towards, rfl⟩ | ⟨other, rfl⟩
    · refine ⟨RunPatch.apply { status := some target } row, ?_, rowNamed, ?_⟩
      · show (t.runs.modify rid _).get? rid = _
        rw [Table.get?_modify_self, hrow]
        rfl
      · rcases towards with h | h
        · exact .inr (.inl h)
        · exact .inl h
    · exact ⟨row, hrow, rowNamed, .inr (.inr (status.resolve_left other))⟩
  · intro a' ha'
    obtain ⟨ops, unknown, -, hrelease⟩ := settleLost_eq_ok hsettle
    refine endAttempt_ended t now aid "worker_lost" ?_
    obtain ⟨-, -, ⟨-, _, _, -, rfl⟩ | ⟨-, rfl⟩⟩ := releaseLost_eq_ok hrelease <;> exact ha'
  · obtain ⟨o, ho, howner, state, member⟩ := settleLost_running hsettle oid o' ho' owner running
    obtain ⟨x, hx, rfl⟩ := List.mem_map.mp member
    obtain ⟨hmem, hcont⟩ := List.mem_filter.mp hx
    obtain ⟨hget, -⟩ := Store.mem_operationsOf.mp hmem
    have ht : t.operations.get? x.1 = some o := ho
    cases ht.symm.trans hget
    refine ⟨x.2, operations ▸ hget, howner, state, ?_⟩
    rw [Store.continuation, interactions] at hcont
    exact hcont

/-- The turn of a run that is being cancelled and whose process goes on. -/
theorem recoverRun_alive {rid : RunId} {run : Run} {aid : AttemptId} {a : Attempt}
    (hrun : s.runs.get? rid = some run) (cancelling : run.status = .cancelling)
    (named : run.attemptId = some aid) (ha : s.attempts.get? aid = some a)
    (alive : machine.alive a.process = true)
    (h : recoverRun host machine s rid run now = .ok s') : Untouched rid s s' := by
  rcases recoverRun_eq_ok hrun h with ⟨rfl, -⟩ | ⟨aid', a', t, named', ha', hlost, left⟩
  · exact .refl
  cases named.symm.trans named'
  cases ha.symm.trans ha'
  rcases markLost_eq_ok hlost with ⟨running, -⟩ | ⟨-, rfl⟩
  · rw [cancelling] at running
    cases running
  rcases left with ⟨-, rfl⟩ | ⟨dead, -⟩
  · exact ⟨rfl, fun _ _ _ => Iff.rfl, fun _ _ ha _ => ha⟩
  · rw [alive] at dead
    cases dead

/-! ## The loops -/

theorem recovers_writes {l : List (RunId × Run)} (distinct : (l.map Prod.fst).Nodup)
    (rows : ∀ e ∈ l, s.runs.get? e.1 = some e.2 ∧ e.2.status ∈ recoverable) (leased : s.Leased)
    (free : D.scope = {}) (h : l.foldlM (fun s e => recoverRun host machine s e.1 e.2 now) s = .ok s') :
    Writes D now s s' ∧ Recovers s s' ∧ ∀ rid, rid ∉ l.map Prod.fst → Untouched rid s s' := by
  refine foldlM_keyed
    (R := fun t u => Writes D now t u ∧ Recovers t u ∧
      ∀ rid, rid ∉ l.map Prod.fst → Untouched rid t u)
    (P := fun t rid run => t.runs.get? rid = some run ∧ run.status ∈ recoverable)
    (fun _ => ⟨.refl, ⟨rfl, rfl⟩, fun _ _ => .refl⟩) (fun t u v h k => ⟨h.1.trans k.1,
      ⟨k.2.1.interactions.trans h.2.1.interactions, k.2.1.dependencies.trans h.2.1.dependencies⟩,
      fun rid hrid => (h.2.2 rid hrid).trans (k.2.2 rid hrid)⟩) distinct h rows ?_
  intro e he t t' begun current hturn
  have leased' : t.Leased := begun.1.invariant (fun _ _ leased w => leased.write w) leased
  obtain ⟨others, recovers⟩ := recoverRun_untouched leased' current.1 hturn
  refine ⟨⟨recoverRun_writes current.1 current.2 (fun _ => free ▸ trivial)
    (fun _ _ _ _ _ => free ▸ trivial) hturn, recovers, fun rid hrid => ?_⟩, ?_⟩
  · exact others rid fun same => hrid (same ▸ List.mem_map_of_mem he)
  · exact fun e' _ ne row => ⟨(others e'.1 ne).run.trans row.1, row.2⟩

/-- A run that nobody works on: its last attempt has ended and no operation of it is running. -/
structure Store.Idle (s : Store) (rid : RunId) : Prop where
  ended : ∀ r aid a, s.runs.get? rid = some r → r.attemptId = some aid →
    s.attempts.get? aid = some a → a.endedAt ≠ none
  stopped : ∀ oid o, s.operations.get? oid = some o → o.runId = rid → o.state ≠ .running

theorem Store.Idle.untouched {rid : RunId} (idle : s.Idle rid) (leased : s.Leased)
    (u : Untouched rid s t) : t.Idle rid where
  ended r aid a hr named ha := by
    rw [u.run] at hr
    obtain ⟨a', ha', owner, -⟩ := leased.named rid r aid hr named
    cases (u.attempts aid a' ha' owner).symm.trans ha
    exact idle.ended r aid _ hr named ha'
  stopped oid o ho owner := idle.stopped oid o ((u.operations oid o owner).mp ho) owner

theorem Store.HasUnknown.untouched {rid : RunId} (unknown : s.HasUnknown rid)
    (u : Untouched rid s t) : t.HasUnknown rid := by
  obtain ⟨oid, o, ho, owner, state⟩ := unknown
  exact ⟨oid, o, (u.operations oid o owner).mpr ho, owner, state⟩

theorem recoverRun_unknown {rid : RunId} {run : Run} (hrun : s.runs.get? rid = some run)
    (h : recoverRun host machine s rid run now = .ok s') (unknown : s.HasUnknown rid) :
    s'.HasUnknown rid := by
  rcases recoverRun_eq_ok hrun h with ⟨rfl, -⟩ | ⟨aid, a, t, -, -, hlost, left⟩
  · exact unknown
  have lost : t.HasUnknown rid := by
    rcases markLost_eq_ok hlost with ⟨-, events, rfl⟩ | ⟨-, rfl⟩ <;> exact unknown
  rcases left with ⟨-, rfl⟩ | ⟨-, hsettle⟩
  · exact lost
  obtain ⟨operations, flag, loop, hrelease⟩ := settleLost_eq_ok hsettle
  obtain ⟨oid, o, ho, owner, state⟩ := lost
  obtain ⟨o', ho', dec⟩ := loop.decided (oid, o) (Store.mem_operationsOf.mpr ⟨ho, owner⟩)
  have found : operations.get? oid = some o' := ho'
  have same : s'.operations = operations := by
    obtain ⟨-, -, ⟨-, _, _, -, rfl⟩ | ⟨-, rfl⟩⟩ := releaseLost_eq_ok hrelease <;> rfl
  exact ⟨oid, o', same ▸ found, dec.owner.trans owner, dec.kept state⟩

/-- What lets recovery decide a run whose lease has expired.  Its process has exited, and no
exchange awaits the user if the run is being cancelled; or it is being cancelled and is idle, or
has an unknown operation. -/
def Store.Decisive (s : Store) (machine : Machine) (rid : RunId) (run : Run) (a : Attempt) : Prop :=
  machine.alive a.process = false ∧ (run.status = .cancelling → ∀ oid o,
      s.operations.get? oid = some o → o.runId = rid → o.state = .running →
      s.continuation rid oid o = false) ∨
    run.status = .cancelling ∧ (s.Idle rid ∨ s.HasUnknown rid)

/-- The turn of a run in `recover`: the turns of the other runs, before and after it, leave the run
as it is. -/
theorem recover_turn {rid : RunId} {run : Run} (leased : s.Leased) (hrun : s.runs.get? rid = some run)
    (listed : run.status ∈ recoverable) (h : recover host machine s now = .ok s') :
    ∃ t t', Untouched rid s t ∧ Recovers s t ∧ t.Leased ∧
      recoverRun host machine t rid run now = .ok t' ∧ t'.Leased ∧ Untouched rid t' s' := by
  have distinct := Store.nodup_runsWith (s := s) recoverable
  have rows : ∀ e ∈ s.runsWith recoverable, s.runs.get? e.1 = some e.2 ∧ e.2.status ∈ recoverable :=
    fun e he => Store.mem_runsWith.mp he
  have member : (rid, run) ∈ s.runsWith recoverable := Store.mem_runsWith.mpr ⟨hrun, listed⟩
  obtain ⟨before, after, t, t', split, hbefore, hturn, hafter⟩ := foldlM_split member h
  rw [split] at distinct rows
  rw [List.map_append, List.map_cons, List.nodup_append, List.nodup_cons] at distinct
  obtain ⟨distinctBefore, ⟨notAfter, distinctAfter⟩, apart⟩ := distinct
  have notBefore : rid ∉ before.map Prod.fst := fun hmem =>
    apart rid hmem rid (List.mem_cons_self ..) rfl
  obtain ⟨writes, recovers, frame⟩ := recovers_writes (D := {}) distinctBefore
    (fun e he => rows e (List.mem_append_left _ he)) leased rfl hbefore
  have u := frame rid notBefore
  have leasedT : t.Leased := writes.invariant (fun _ _ leased w => leased.write w) leased
  have hrunT : t.runs.get? rid = some run := u.run.trans hrun
  have leasedT' : t'.Leased := (recoverRun_writes (D := {}) hrunT listed
    (fun _ => trivial) (fun _ _ _ _ _ => trivial) hturn).invariant
    (fun _ _ leased w => leased.write w) leasedT
  -- The runs that come later are as they were listed.
  have rowsT' : ∀ e ∈ after, t'.runs.get? e.1 = some e.2 ∧ e.2.status ∈ recoverable := by
    intro e he
    obtain ⟨hrow, status⟩ := rows e (List.mem_append_right _ (List.mem_cons_of_mem _ he))
    have key := List.mem_map_of_mem (f := Prod.fst) he
    have notEarlier : e.1 ∉ before.map Prod.fst := fun hmem =>
      apart e.1 hmem e.1 (List.mem_cons_of_mem _ key) rfl
    have ne : e.1 ≠ rid := fun same => notAfter (same ▸ key)
    have turned := (recoverRun_untouched leasedT hrunT hturn).1 e.1 ne
    exact ⟨turned.run.trans ((frame e.1 notEarlier).run.trans hrow), status⟩
  have later := (recovers_writes (D := {}) distinctAfter rowsT' leasedT' rfl hafter).2.2 rid notAfter
  exact ⟨t, t', u, recovers, leasedT, hturn, leasedT', later⟩

/-- What `recover` leaves of a run whose lease has expired. -/
theorem recover_left {rid : RunId} {run : Run} {aid : AttemptId} {a : Attempt} (leased : s.Leased)
    (hrun : s.runs.get? rid = some run) (named : run.attemptId = some aid)
    (ha : s.attempts.get? aid = some a) (expired : a.leaseExpiry ≤ now)
    (decisive : run.status ∈ recoverable → s.Decisive machine rid run a)
    (h : recover host machine s now = .ok s') :
    ∃ r', s'.runs.get? rid = some r' ∧ r'.status ≠ .recovering ∧
      (r'.status = .cancelling → s'.Idle rid ∨ s'.HasUnknown rid) := by
  obtain ⟨a', ha', owner, -⟩ := leased.named rid run aid hrun named
  cases ha.symm.trans ha'
  by_cases listed : run.status ∈ recoverable
  · obtain ⟨t, t', u, recovers, leasedT, hturn, leasedT', later⟩ := recover_turn leased hrun listed h
    have hrunT : t.runs.get? rid = some run := u.run.trans hrun
    have haT := u.attempts aid a ha owner
    have outcome : ∃ r', t'.runs.get? rid = some r' ∧ r'.status ≠ .recovering ∧
        (r'.status = .cancelling → t'.Idle rid ∨ t'.HasUnknown rid) := by
      by_cases dead : machine.alive a.process = false
      · have lost := recoverRun_lost hrunT listed named haT expired dead hturn
        obtain ⟨r', hr', named', status⟩ := lost.row
        refine ⟨r', hr', by rcases status with h | h | ⟨h, -⟩ <;> simp [h], fun cancelling => ?_⟩
        have was : run.status = .cancelling := by
          rcases status with h | h | ⟨-, h⟩
          · rw [h] at cancelling
            cases cancelling
          · rw [h] at cancelling
            cases cancelling
          · exact h
        have idle : (∀ oid o, t.operations.get? oid = some o → o.runId = rid → o.state = .running →
            t.continuation rid oid o = false) → t'.Idle rid := by
          intro none
          refine ⟨fun r aid' a' hr named'' ha' => ?_, fun oid o' ho' owner' state => ?_⟩
          · cases hr'.symm.trans hr
            cases named'.symm.trans named''
            exact lost.ended a' ha'
          · obtain ⟨o, ho, howner, running, awaits⟩ := lost.running oid o' ho' owner' state
            rw [none oid o ho howner running] at awaits
            cases awaits
        rcases decisive listed with ⟨-, none⟩ | ⟨-, idleBefore | unknown⟩
        · refine .inl (idle fun oid o ho owner' running => ?_)
          have awaits := none was oid o ((u.operations oid o owner').mp ho) owner' running
          rw [Store.continuation, recovers.interactions]
          exact awaits
        · refine .inl (idle fun oid o ho owner' running => ?_)
          exact absurd running (idleBefore.stopped oid o ((u.operations oid o owner').mp ho) owner')
        · exact .inr (recoverRun_unknown hrunT hturn (unknown.untouched u))
      · have alive := (Bool.not_eq_false _).mp dead
        rcases decisive listed with ⟨dead', -⟩ | ⟨cancelling, kind⟩
        · exact absurd dead' dead
        have same := recoverRun_alive hrunT cancelling named haT alive hturn
        refine ⟨run, same.run.trans hrunT, by simp [cancelling], fun _ => ?_⟩
        exact kind.imp (fun idle => (idle.untouched leased u).untouched leasedT same)
          fun unknown => (unknown.untouched u).untouched same
    obtain ⟨r', hr', notRecovering, kind⟩ := outcome
    refine ⟨r', later.run.trans hr', notRecovering, fun cancelling => ?_⟩
    exact (kind cancelling).imp (fun idle => idle.untouched leasedT' later)
      fun unknown => unknown.untouched later
  · have absent : rid ∉ (s.runsWith recoverable).map Prod.fst := by
      intro hmem
      obtain ⟨⟨rid', row⟩, he, rfl⟩ := List.mem_map.mp hmem
      obtain ⟨hrow, status⟩ := Store.mem_runsWith.mp he
      cases hrun.symm.trans hrow
      exact listed status
    have frame := (recovers_writes (D := {}) (Store.nodup_runsWith _)
      (fun e he => Store.mem_runsWith.mp he) leased rfl h).2.2 rid absent
    refine ⟨run, frame.run.trans hrun, fun status => ?_, fun status => ?_⟩ <;>
      exact absurd (by simp [recoverable, status]) listed

/-! ## Idle cancellations -/

theorem finishIdleRun_untouched {rid : RunId} {run : Run}
    (h : finishIdleRun s rid run now = .ok s') :
    (∀ other, other ≠ rid → Untouched other s s') ∧ s'.dependencies = s.dependencies := by
  unfold finishIdleRun at h
  split at h
  · cases h
    exact ⟨fun _ _ => .refl, rfl⟩
  split at h
  · exact ⟨fun _ ne => transition_untouched ne h, (transition_frame h).1⟩
  · cases h
    exact ⟨fun _ _ => .refl, rfl⟩

theorem finishIdles_untouched {l : List (RunId × Run)}
    (h : l.foldlM (fun s e => finishIdleRun s e.1 e.2 now) s = .ok s') :
    (∀ rid, rid ∉ l.map Prod.fst → Untouched rid s s') ∧ s'.dependencies = s.dependencies := by
  refine foldlM_closed
    (R := fun t u => (∀ rid, rid ∉ l.map Prod.fst → Untouched rid t u) ∧
      u.dependencies = t.dependencies)
    (fun _ => ⟨fun _ _ => .refl, rfl⟩)
    (fun _ _ _ h k => ⟨fun rid hrid => (h.1 rid hrid).trans (k.1 rid hrid), k.2.trans h.2⟩) h ?_
  intro e he t t' _ hturn
  obtain ⟨others, dependencies⟩ := finishIdleRun_untouched hturn
  refine ⟨fun rid hrid => others rid fun same => hrid ?_, dependencies⟩
  exact same ▸ List.mem_map_of_mem he

/-- The turn of an idle run in `finishIdle`: it ends, or something of it is unresolved. -/
theorem finishIdleRun_left {rid : RunId} {run : Run} (hrun : s.runs.get? rid = some run)
    (idle : s.Idle rid ∨ s.HasUnknown rid) (h : finishIdleRun s rid run now = .ok s') :
    (∃ r', s'.runs.get? rid = some r' ∧ r'.status = .cancelled) ∨
      s' = s ∧ (s.HasUnknown rid ∨ s.childrenTerminal rid = false) := by
  unfold finishIdleRun at h
  split at h
  · rename_i open'
    cases h
    refine .inr ⟨rfl, .inl (idle.resolve_left fun idle => ?_)⟩
    obtain ⟨a, ha, running⟩ := (Option.any_eq_true ..).mp open'
    obtain ⟨aid, named, hget⟩ := Option.bind_eq_some_iff.mp ha
    exact idle.ended run aid a hrun named hget (of_decide_eq_true running)
  split at h
  · refine .inl ⟨_, by rw [transition_runs h, Table.get?_modify_self, hrun]; rfl, rfl⟩
  · rename_i held
    cases h
    refine .inr ⟨rfl, ?_⟩
    by_cases children : s.childrenTerminal rid = true
    · refine .inl (idle.elim (fun idle => ?_) id)
      have unresolved := (Bool.not_eq_false _).mp fun none => held ⟨none, children⟩
      obtain ⟨oid, o, ho, hb⟩ := Table.any_iff.mp unresolved
      simp only [Operation.unresolved, Bool.and_eq_true, decide_eq_true_eq] at hb
      refine ⟨oid, o, ho, hb.1, hb.2.1.resolve_left ?_⟩
      exact idle.stopped oid o ho hb.1
    · exact .inr ((Bool.not_eq_true _).mp children)

/-- `finishIdle` cancels a run or leaves its row alone. -/
theorem finishIdle_rows (h : finishIdle s now = .ok s') {rid : RunId} {r' : Run}
    (hr' : s'.runs.get? rid = some r') : r'.status = .cancelled ∨ s.runs.get? rid = some r' := by
  refine foldlM_closed
    (R := fun (t u : Store) => ∀ r', u.runs.get? rid = some r' →
      r'.status = .cancelled ∨ t.runs.get? rid = some r')
    (fun _ _ h => .inr h) (fun _ _ _ h k q hq => (k q hq).elim .inl (h q)) h ?_ r' hr'
  intro e _ t t' _ hturn r' hr'
  unfold finishIdleRun at hturn
  split at hturn
  · cases hturn
    exact .inr hr'
  split at hturn
  · rw [transition_runs hturn, Table.get?_modify] at hr'
    split at hr'
    · obtain ⟨r, -, rfl⟩ := Option.map_eq_some_iff.mp hr'
      exact .inl rfl
    · exact .inr hr'
  · cases hturn
    exact .inr hr'

/-- A parent comes before its children in the order of creation. -/
def Store.Ordered (s : Store) : Prop :=
  ∀ key d parent child, s.dependencies.get? key = some d → s.runs.get? d.parentId = some parent →
    s.runs.get? d.childId = some child →
    ¬Store.createdBefore (d.childId, child) (d.parentId, parent)

/-- What `finishIdle` leaves of a run that is being cancelled. -/
theorem finishIdle_left {rid : RunId} {run : Run} (ordered : s.Ordered) (leased : s.Leased)
    (hrun : s.runs.get? rid = some run)
    (left : run.status = .cancelling → s.Idle rid ∨ s.HasUnknown rid)
    (h : finishIdle s now = .ok s') {run' : Run} (hrun' : s'.runs.get? rid = some run')
    (held : run'.status = .cancelling) :
    (∃ child ∈ s'.children rid, child.2.status.terminal = false) ∨ s'.HasUnknown rid := by
  have distinct := Store.nodup_runsWith (s := s) [.cancelling]
  by_cases listed : run.status = .cancelling
  swap
  · have absent : rid ∉ (s.runsWith [.cancelling]).reverse.map Prod.fst := by
      intro hmem
      obtain ⟨⟨rid', row⟩, he, rfl⟩ := List.mem_map.mp hmem
      obtain ⟨hrow, status⟩ := Store.mem_runsWith.mp (List.mem_reverse.mp he)
      cases hrun.symm.trans hrow
      exact listed (List.mem_singleton.mp status)
    have same := ((finishIdles_untouched h).1 rid absent).run
    rw [hrun', hrun] at same
    cases same
    exact absurd held listed
  have member : (rid, run) ∈ (s.runsWith [.cancelling]).reverse :=
    List.mem_reverse.mpr (Store.mem_runsWith.mpr ⟨hrun, by simp [listed]⟩)
  have sorted := List.pairwise_reverse.mpr (Store.pairwise_runsWith (s := s) [.cancelling])
  rw [← List.nodup_reverse, ← List.map_reverse] at distinct
  obtain ⟨before, after, t, t', split, hbefore, hturn, hafter⟩ := foldlM_split member h
  rw [split] at distinct sorted
  rw [List.map_append, List.map_cons, List.nodup_append, List.nodup_cons] at distinct
  obtain ⟨-, ⟨notAfter, -⟩, apart⟩ := distinct
  have notBefore : rid ∉ before.map Prod.fst := fun hmem =>
    apart rid hmem rid (List.mem_cons_self ..) rfl
  obtain ⟨frame, dependencies⟩ := finishIdles_untouched hbefore
  obtain ⟨frame', dependencies'⟩ := finishIdles_untouched hafter
  have u := frame rid notBefore
  have later := frame' rid notAfter
  have kind := (left listed).imp (fun idle => idle.untouched leased u)
    fun unknown => unknown.untouched u
  rcases finishIdleRun_left (u.run.trans hrun) kind hturn with ⟨r', hr', ended⟩ | ⟨rfl, unknown | live⟩
  · rw [later.run, hr'] at hrun'
    cases hrun'
    rw [ended] at held
    cases held
  · exact .inr (unknown.untouched later)
  -- A child that goes on at the turn of its parent has no turn left.
  obtain ⟨⟨cid, child⟩, hchild, going⟩ := List.all_eq_false.mp live
  obtain ⟨hid, hrow⟩ := Store.mem_children.mp hchild
  obtain ⟨key, d, hd, owner, same⟩ := Store.mem_childIds.mp hid
  have noTurn : cid ∉ after.map Prod.fst := by
    intro hmem
    obtain ⟨⟨cid', listedRow⟩, he, rfl⟩ := List.mem_map.mp hmem
    have hlisted : (cid', listedRow) ∈ (s.runsWith [.cancelling]).reverse := by
      rw [split]
      exact List.mem_append_right _ (List.mem_cons_of_mem _ he)
    obtain ⟨hcurrent, -⟩ := Store.mem_runsWith.mp (List.mem_reverse.mp hlisted)
    have earlier := List.rel_of_pairwise_cons (List.pairwise_append.mp sorted).2.1 he
    rw [dependencies] at hd
    subst owner same
    exact ordered key d run listedRow hd hrun hcurrent earlier
  refine .inl ⟨(cid, child), Store.mem_children.mpr ⟨?_, (frame' cid noTurn).run.trans hrow⟩,
    (Bool.not_eq_true _).mp going⟩
  rw [Store.childIds, dependencies']
  exact hid

/-! ## Invariants -/

/-- A run under review has an unknown operation. -/
def Store.ReviewsUnknown (s : Store) : Prop :=
  ∀ rid r, s.runs.get? rid = some r → r.status = .needsReview → s.HasUnknown rid

/-- A run that stays under review keeps an unknown operation. -/
theorem Store.HasUnknown.write {rid : RunId} {r r' : Run} (unknown : s.HasUnknown rid)
    (hr : s.runs.get? rid = some r) (review : r.status = .needsReview)
    (hr' : s'.runs.get? rid = some r') (review' : r'.status = .needsReview)
    (w : Write D now s s') : s'.HasUnknown rid := by
  obtain ⟨oid, o, ho, owner, state⟩ := unknown
  have idle : ∀ {q}, s.runs.get? o.runId = some q → q.status = .needsReview := by
    intro q hq
    rw [owner, hr] at hq
    cases hq
    exact review
  cases w with
  | @operationMoved oid' o' patch ho' move =>
      by_cases same : oid = oid'
      swap
      · exact ⟨oid, o, (Table.get?_modify_ne _ _ same).trans ho, owner, state⟩
      subst same
      cases ho.symm.trans ho'
      cases move with
      | stepped live =>
          obtain ⟨q, hq, status⟩ := live
          rw [idle hq] at status
          rcases status with h | h <;> cases h
      | lost running => rw [state] at running; cases running
      | reconciled _ hrun _ other =>
          obtain ⟨id, o₂, ho₂, owner₂, state₂, ne⟩ := other (idle hrun)
          exact ⟨id, o₂, (Table.get?_modify_ne _ _ ne).trans ho₂, owner₂.trans owner, state₂⟩
      | accepted _ hrun status => rw [idle hrun] at status; cases status
  | @released rid' run oid' o' patch f hrun _ ho' owner' _ _ _ _ _ row =>
      by_cases same : oid = oid'
      · subst same
        cases ho.symm.trans ho'
        rw [show rid = rid' from owner.symm.trans owner', Table.get?_modify_self, hrun,
          Option.map_some, row] at hr'
        cases hr'
        cases review'
      · exact ⟨oid, o, (Table.get?_modify_ne _ _ same).trans ho, owner, state⟩
  | finished =>
      refine ⟨oid, o, ?_, owner, state⟩
      rw [Table.get?_mapRows, ho, Option.map_some, Operation.close, if_neg]
      rintro ⟨-, unstarted⟩
      rw [state] at unstarted
      cases unstarted
  | operationAdded hinsert =>
      obtain ⟨absent, rows⟩ := Table.insert?_eq_some hinsert
      refine ⟨oid, o, ?_, owner, state⟩
      rw [rows, if_neg, ho]
      rintro rfl
      cases ho.symm.trans absent
  | _ => exact ⟨oid, o, ho, owner, state⟩

theorem Store.ReviewsUnknown.write (D : Discipline) (hD : D.unknownReviewed)
    (reviews : s.ReviewsUnknown) (w : Write D now s s') : s'.ReviewsUnknown := by
  intro rid r' hr' review
  cases w.runEffect hr' with
  | kept hr => exact (reviews rid r' hr review).write hr review hr' review w
  | added _ fresh => rw [fresh.queued] at review; cases review
  | claimed | released => cases review
  | finished _ _ ends => cases review; cases ends
  | moved hr m operations =>
      have same : s.HasUnknown rid → s'.HasUnknown rid := by
        rintro ⟨oid, o, ho, unknown⟩
        exact ⟨oid, o, operations ▸ ho, unknown⟩
      have before := reviews rid _ hr
      cases m with
      | checkpointed => exact same (before review)
      | inputAdvanced => exact same (before review)
      | suspended _ _ _ _ found => exact same (found review hD)
      | reviewed _ found => exact same (found hD)
      | woken | lost | requeued | cancelling => cases review

theorem Store.Ordered.write (D : Discipline) (hD : D.childrenLater) (base : s.Base)
    (ordered : s.Ordered) (w : Write D now s s') : s'.Ordered := by
  have before : ∀ key d parent child, s.dependencies.get? key = some d →
      s'.runs.get? d.parentId = some parent → s'.runs.get? d.childId = some child →
      ¬Store.createdBefore (d.childId, child) (d.parentId, parent) := by
    intro key d parent' child' hd hparent' hchild'
    obtain ⟨parent, child, hparent, hchild, -⟩ := base.tree.rows hd
    have sameParent := (w.runEffect hparent').same hparent
    have sameChild := (w.runEffect hchild').same hchild
    have order := ordered key d parent child hd hparent hchild
    unfold Store.createdBefore at order ⊢
    rw [sameParent.created, sameChild.created]
    exact order
  intro key d parent child hd hparent hchild
  rcases w.dependencies with same | ⟨key', new, child', parent', hinsert, -, hchild', -, hparent', -,
    -, -, later⟩
  · exact before key d parent child (same ▸ hd) hparent hchild
  rw [(Table.insert?_eq_some hinsert).2] at hd
  split at hd
  · cases hd
    cases hchild.symm.trans hchild'
    cases hparent.symm.trans hparent'
    exact later hD
  · exact before key d parent child hd hparent hchild

/-! ## Runs of the system -/

/-- An attempt that does not wait leaves its run under review only with an unknown operation, an
attempt that waits for a review names an operation that is running or unknown, and a child is
created after its parent. -/
def ReviewsDecidable (w : World) : Action → Prop
  | .settle _ ctx outcome => w.store.Running ctx.runId →
      (outcome.kind ≠ .waiting → ¬w.store.OpsResolved ctx.runId → w.store.HasUnknown ctx.runId) ∧
      (outcome.kind = .waiting → waitingStatus outcome.interruptRefs = .needsReview →
        ∃ oid o, w.store.operations.get? oid = some o ∧ o.runId = ctx.runId ∧
          o.reviewedBy oid outcome.interruptRefs)
  | .delegate ctx key request _ ids => w.store.dependencies.get? key = none →
      ∀ parent, w.store.runs.get? ctx.runId = some parent →
        ¬Store.createdBefore (ids.run, childRow ctx parent request ids w.now) (ctx.runId, parent)
  | _ => True

/-- The discipline under which a review can be decided and a parent comes before its children. -/
def Discipline.decidable : Discipline := { unknownReviewed := True, childrenLater := True }

theorem ReviewsDecidable.meets {w : World} {a : Action} (h : ReviewsDecidable w a) :
    Discipline.decidable.Meets host w.store w.now a where
  scope := .all ..
  cancel _ _ _ _ := ⟨not_false, False.elim⟩
  settle _ _ _ same running := by
    subst same
    exact ⟨fun _ => (h running).1, fun _ => (h running).2, False.elim, False.elim⟩
  reconcile _ _ _ _ _ := False.elim
  delegate _ _ _ _ _ same _ := by
    subst same
    exact h

theorem recover_writes (leased : s.Leased) (free : D.scope = {})
    (h : recover host machine s now = .ok s') : Writes D now s s' :=
  (recovers_writes (Store.nodup_runsWith recoverable) (fun _ he => Store.mem_runsWith.mp he)
    leased free h).1

/-- In every run whose reviews can be decided: when the lease of a run has expired and `recover`
can decide it, then after `recover` and `finishIdle` the run is not recovering, and if it is under
review or being cancelled, a child of it goes on or an operation of it is unknown. -/
theorem recovered_released {w : World}
    (reach : ((system host).restrict ReviewsDecidable).Reachable w) {s₁ s₂ : Store}
    (hrecover : recover host machine w.store w.now = .ok s₁) (hfinish : finishIdle s₁ w.now = .ok s₂)
    {rid : RunId} {run : Run} {aid : AttemptId} {a : Attempt}
    (hrun : w.store.runs.get? rid = some run) (named : run.attemptId = some aid)
    (ha : w.store.attempts.get? aid = some a) (expired : a.leaseExpiry ≤ w.now)
    (decisive : run.status ∈ recoverable → w.store.Decisive machine rid run a) {run₂ : Run}
    (h : s₂.runs.get? rid = some run₂)
    (held : run₂.status = .recovering ∨ run₂.status = .cancelling ∨ run₂.status = .needsReview) :
    run₂.status ≠ .recovering ∧
      ((∃ child ∈ s₂.children rid, child.2.status.terminal = false) ∨ s₂.HasUnknown rid) := by
  have free := reach.of_restrict
  have kept : ∀ now s s', s.Base → (s.ReviewsUnknown ∧ s.Ordered) →
      Write Discipline.decidable now s s' → s'.ReviewsUnknown ∧ s'.Ordered :=
    fun _ _ _ base h w => ⟨h.1.write Discipline.decidable trivial w,
      h.2.write Discipline.decidable trivial base w⟩
  have invariant : w.store.ReviewsUnknown ∧ w.store.Ordered :=
    reachable_of_writes ⟨(fun _ _ h => by cases h), (fun _ _ _ _ h => by cases h)⟩
      (fun _ _ _ _ met => ReviewsDecidable.meets met) kept reach
  have leased := reachable_leased free
  have base := reachable_base free
  have writes₁ : Writes Discipline.decidable w.now w.store s₁ := recover_writes leased rfl hrecover
  have writes₂ : Writes Discipline.decidable w.now s₁ s₂ := finishIdle_writes hfinish
  have keep : ∀ {t t'}, Writes Discipline.decidable w.now t t' →
      t.Base ∧ t.ReviewsUnknown ∧ t.Ordered → t'.Base ∧ t'.ReviewsUnknown ∧ t'.Ordered :=
    fun writes => writes.invariant (I := fun t => t.Base ∧ t.ReviewsUnknown ∧ t.Ordered)
      fun _ _ h w => ⟨h.1.write w, kept _ _ _ h.1 h.2 w⟩
  have invariant₁ := keep writes₁ ⟨base, invariant⟩
  have invariant₂ := keep writes₂ invariant₁
  have leased₁ : s₁.Leased := writes₁.invariant (fun _ _ leased w => leased.write w) leased
  obtain ⟨run₁, hrun₁, notRecovering, left⟩ :=
    recover_left leased hrun named ha expired decisive hrecover
  have settled : run₂.status ≠ .recovering := by
    intro recovering
    rcases finishIdle_rows hfinish h with cancelled | same
    · rw [recovering] at cancelled
      cases cancelled
    · cases hrun₁.symm.trans same
      exact notRecovering recovering
  refine ⟨settled, ?_⟩
  rcases held with recovering | cancelling | review
  · exact absurd recovering settled
  · exact finishIdle_left invariant₁.2.2 leased₁ hrun₁ left hfinish h cancelling
  · exact .inr (invariant₂.2.1 rid run₂ h review)

/-- A run whose file write was interrupted waits for a review after its worker is lost. -/
theorem recovered_released_lost : ∃ (s₂ : Store) (run₂ : Run), s₂.runs.get? 10 = some run₂ ∧
    run₂.status = .needsReview ∧ run₂.status ≠ .recovering ∧
    ((∃ child ∈ s₂.children 10, child.2.status.terminal = false) ∨ s₂.HasUnknown 10) := by
  let actions : List Action := Sample.submitted ++
    [.claim ⟨1, 1⟩ 20,
      .prepareOperation (Sample.context 20 1) ⟨1, 1, .named "mcp", "1", "args", "args", "target"⟩ 100,
      .startOperation (Sample.context 20 1) 100 Sample.operation 200
        ⟨100, "1", "args", "target", 1, 500⟩ 1,
      .tick 40000]
  have run : (System.runs (World.next Sample.host) Sample.start actions).any (fun w =>
      ((w.store.runs.get? 10).any fun r => decide (r.attemptId = some 20 ∧ r.status = .running)) &&
      ((w.store.attempts.get? 20).any fun a => decide (a.leaseExpiry ≤ w.now)) &&
      (recover Sample.host Sample.machine w.store w.now).toOption.any fun s₁ =>
        (finishIdle s₁ w.now).toOption.any fun s₂ =>
          (s₂.runs.get? 10).any fun r => decide (r.status = .needsReview)) = true := by decide
  simp only [Option.any_eq_true, Bool.and_eq_true, decide_eq_true_eq, toOption_eq_some] at run
  obtain ⟨w, hw, ⟨⟨r, hr, named, running⟩, a, ha, expired⟩, s₁, hrecover, s₂, hfinish, run₂, hrun₂,
    review⟩ := run
  refine ⟨s₂, run₂, hrun₂, review, recovered_released (Sample.reachableWithin (fun b hb w => ?_) hw)
    hrecover hfinish hr named ha expired (fun _ => .inl ⟨rfl, fun cancelling => ?_⟩) hrun₂
    (.inr (.inr review))⟩
  · simp only [actions, Sample.submitted, List.cons_append, List.nil_append, List.mem_cons,
      List.not_mem_nil, or_false] at hb
    rcases hb with rfl | rfl | rfl | rfl | rfl | rfl <;> trivial
  · rw [running] at cancelling
    cases cancelling

/-- A run that is cancelled while an exchange awaits the user is never released: the exchange
stays running, and `reconcile` does not accept it. -/
theorem recovered_stuck : ¬∀ host machine w s₁ s₂, (system host).Reachable w →
    recover host machine w.store w.now = .ok s₁ → finishIdle s₁ w.now = .ok s₂ →
    ∀ rid run aid a, w.store.runs.get? rid = some run → run.attemptId = some aid →
      w.store.attempts.get? aid = some a → a.leaseExpiry ≤ w.now →
      machine.alive a.process = false → ∀ run₂, s₂.runs.get? rid = some run₂ →
      (run₂.status = .recovering ∨ run₂.status = .cancelling ∨ run₂.status = .needsReview) →
      run₂.status ≠ .recovering ∧
        ((∃ child ∈ s₂.children rid, child.2.status.terminal = false) ∨ s₂.HasUnknown rid) := by
  intro released
  have run : (System.runs (World.next Sample.host) Sample.start
      (Sample.exchanged.dropLast ++ [.cancel 1 10 "user_cancel", .tick 40000])).any (fun w =>
      ((w.store.runs.get? 10).any fun r => decide (r.attemptId = some 20)) &&
      ((w.store.attempts.get? 20).any fun a => decide (a.leaseExpiry ≤ w.now)) &&
      (recover Sample.host Sample.machine w.store w.now).toOption.any fun s₁ =>
        (finishIdle s₁ w.now).toOption.any fun s₂ =>
          ((s₂.runs.get? 10).any fun r => decide (r.status = .cancelling)) &&
          (s₂.children 10).isEmpty && !s₂.operations.any fun _ o => decide (o.state = .unknown)) =
      true := by decide
  simp only [Option.any_eq_true, Bool.and_eq_true, decide_eq_true_eq, Bool.not_eq_true',
    toOption_eq_some] at run
  obtain ⟨w, hw, ⟨⟨r, hr, named⟩, a, ha, expired⟩, s₁, hrecover, s₂, hfinish,
    ⟨⟨run₂, hrun₂, cancelling⟩, childless⟩, known⟩ := run
  obtain ⟨-, ⟨child, hchild, -⟩ | ⟨oid, o, ho, -, unknown⟩⟩ :=
    released _ _ w s₁ s₂ (Sample.reachable hw) hrecover hfinish 10 r 20 a hr named ha expired rfl run₂
      hrun₂ (.inr (.inl cancelling))
  · rw [List.isEmpty_iff.mp childless] at hchild
    cases hchild
  · have state := Table.any_eq_false.mp known oid o ho
    rw [unknown] at state
    cases state

end MiHarness

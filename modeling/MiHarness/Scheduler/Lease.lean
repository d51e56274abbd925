import MiHarness.Scheduler.Invariant

/-!
# Lease fencing

A claim gives a run a new attempt with the next fencing token, and `assertFence` lets a worker
write only while the run still names its attempt and its token and the lease has not run out.
`Store.Leased` ties the three tables together; with it a context that has lost its lease never
gets it back.
-/

namespace MiHarness

open Library

variable {D : Discipline} {now : Time} {s s' : Store} {host : Host} {ctx : ExecutionContext}

/-! ## Tokens -/

/-- An attempt has a token its run has had, and a run names an attempt of its own token. -/
structure Store.Leased (s : Store) : Prop where
  issued : ∀ aid a, s.attempts.get? aid = some a →
    ∃ r, s.runs.get? a.runId = some r ∧ a.fencingToken ≤ r.fencingToken
  named : ∀ rid r aid, s.runs.get? rid = some r → r.attemptId = some aid →
    ∃ a, s.attempts.get? aid = some a ∧ a.runId = rid ∧ a.fencingToken = r.fencingToken

/-- Only a claim changes the attempt and the token of a run. -/
theorem RunMove.attempt {rid : RunId} {r r' : Run} (m : RunMove D now s rid r r') :
    r'.attemptId = r.attemptId ∧ r'.fencingToken = r.fencingToken := by
  cases m <;> exact ⟨rfl, rfl⟩

theorem RunEffect.attempt {rid : RunId} {r r' : Run} (e : RunEffect D now s s' rid r')
    (h : s.runs.get? rid = some r) :
    r'.attemptId = r.attemptId ∧ r'.fencingToken = r.fencingToken ∨
      r'.fencingToken = r.fencingToken + 1 ∧ ∃ aid a, r'.attemptId = some aid ∧
        s.attempts.get? aid = none ∧ s'.attempts.get? aid = some a ∧ a.runId = rid ∧
        a.fencingToken = r'.fencingToken := by
  cases e with
  | kept hr | released hr | finished hr =>
      cases h.symm.trans hr
      exact .inl ⟨rfl, rfl⟩
  | added absent => cases h.symm.trans absent
  | claimed hr _ _ absent attempt owner token =>
      cases h.symm.trans hr
      exact .inr ⟨rfl, _, _, rfl, absent, attempt, owner, token⟩
  | moved hr m =>
      cases h.symm.trans hr
      exact .inl m.attempt

theorem RunEffect.token_le {rid : RunId} {r r' : Run} (e : RunEffect D now s s' rid r')
    (h : s.runs.get? rid = some r) : r.fencingToken ≤ r'.fencingToken := by
  rcases e.attempt h with ⟨-, same⟩ | ⟨next, -⟩
  · exact same ▸ Nat.le_refl _
  · exact next ▸ Nat.le_succ _

/-- An attempt is never deleted, and keeps its run and its token. -/
theorem Write.attempt_stays (w : Write D now s s') {aid : AttemptId} {a : Attempt}
    (h : s.attempts.get? aid = some a) :
    ∃ a', s'.attempts.get? aid = some a' ∧ a'.runId = a.runId ∧ a'.fencingToken = a.fencingToken := by
  have stays : ∃ a', s'.attempts.get? aid = some a' := by
    cases w with
    | claimed _ _ _ _ _ hinsert =>
        rw [(Table.insert?_eq_some hinsert).2]
        split
        · exact ⟨_, rfl⟩
        · exact ⟨a, h⟩
    | heartbeat | attemptEnded =>
        simp only [Store.endAttempt, Table.get?_modify, h]
        split
        · exact ⟨_, rfl⟩
        · exact ⟨a, rfl⟩
    | _ => exact ⟨a, h⟩
  obtain ⟨a', ha'⟩ := stays
  refine ⟨a', ha', ?_⟩
  cases w.attemptEffect ha' with
  | kept ha | renewed _ ha | ended _ ha =>
      cases h.symm.trans ha
      exact ⟨rfl, rfl⟩
  | added absent => cases h.symm.trans absent

theorem Store.Leased.initial : Store.initial.Leased where
  issued _ _ h := by cases h
  named _ _ _ h := by cases h

theorem Store.Leased.write (leased : s.Leased) (w : Write D now s s') : s'.Leased where
  issued aid a h := by
    have later : ∀ {rid r}, s.runs.get? rid = some r → ∃ r', s'.runs.get? rid = some r' ∧
        r.fencingToken ≤ r'.fencingToken := by
      intro rid r hr
      obtain ⟨r', hr', -⟩ := w.run_stays hr
      exact ⟨r', hr', (w.runEffect hr').token_le hr⟩
    cases w.attemptEffect h with
    | kept ha | renewed _ ha | ended _ ha =>
        obtain ⟨r, hr, le⟩ := leased.issued _ _ ha
        obtain ⟨r', hr', le'⟩ := later hr
        exact ⟨r', hr', le.trans le'⟩
    | added _ _ hr _ token => exact ⟨_, hr, Nat.le_of_eq token⟩
  named rid r' aid h names := by
    have stays : ∀ {r}, s.runs.get? rid = some r → r.attemptId = some aid →
        r'.fencingToken = r.fencingToken → ∃ a, s'.attempts.get? aid = some a ∧ a.runId = rid ∧
          a.fencingToken = r'.fencingToken := by
      intro r hr hname token
      obtain ⟨a, ha, owner, same⟩ := leased.named rid r aid hr hname
      obtain ⟨a', ha', owner', same'⟩ := w.attempt_stays ha
      exact ⟨a', ha', owner'.trans owner, by rw [same', same, token]⟩
    have effect := w.runEffect h
    cases hr : s.runs.get? rid with
    | some r =>
        rcases effect.attempt hr with ⟨attempt, token⟩ | ⟨-, aid', a, hname, -, ha, owner, token⟩
        · exact stays hr (attempt ▸ names) token
        · cases hname.symm.trans names
          exact ⟨a, ha, owner, token⟩
    | none =>
        cases effect with
        | added _ fresh => rw [fresh.unclaimed] at names; cases names
        | kept hr' | claimed hr' | moved hr' | released hr' | finished hr' =>
            cases hr.symm.trans hr'

theorem reachable_leased {w : World} (h : (system host).Reachable w) : w.store.Leased :=
  reachable_of_free_writes .initial (fun _ _ _ _ leased w => leased.write w) h

/-! ## Contexts -/

/-- A context some state has given out: its run has gone on to a later token, or still names
its attempt. -/
def Store.Issued (s : Store) (ctx : ExecutionContext) : Prop :=
  ∃ r, s.runs.get? ctx.runId = some r ∧ (ctx.fencingToken < r.fencingToken ∨
    ctx.fencingToken = r.fencingToken ∧ r.attemptId = some ctx.workerAttemptId)

theorem context_eq_ok {rid : RunId} {run : Run} (h : context s rid run = .ok ctx) :
    ctx.runId = rid ∧ run.attemptId = some ctx.workerAttemptId ∧
      ctx.fencingToken = run.fencingToken := by
  simp only [context, bind_eq_ok, orThrow_eq_ok, Except.ok.injEq] at h
  obtain ⟨branch, -, attempt, hattempt, rfl⟩ := h
  exact ⟨rfl, hattempt, rfl⟩

theorem Store.Issued.of_context {rid : RunId} {run : Run} (hrun : s.runs.get? rid = some run)
    (h : context s rid run = .ok ctx) : s.Issued ctx := by
  obtain ⟨rfl, attempt, token⟩ := context_eq_ok h
  exact ⟨run, hrun, .inr ⟨token, attempt⟩⟩

theorem Store.Issued.write (issued : s.Issued ctx) (w : Write D now s s') : s'.Issued ctx := by
  obtain ⟨r, hr, token⟩ := issued
  obtain ⟨r', hr', -⟩ := w.run_stays hr
  refine ⟨r', hr', ?_⟩
  rcases (w.runEffect hr').attempt hr with ⟨attempt, same⟩ | ⟨next, -⟩
  · rw [attempt, same]
    exact token
  · rcases token with later | ⟨same, -⟩
    · exact .inl (next ▸ later.trans (Nat.lt_succ_self _))
    · exact .inl (next ▸ same ▸ Nat.lt_succ_self _)

/-- A context that was given out and has lost its lease does not get it back by a write. -/
theorem Store.Issued.stale (issued : s.Issued ctx) (leased : s.Leased) (stale : ¬s.Holds ctx now)
    (w : Write D now s s') : ¬s'.Holds ctx now := by
  rintro ⟨r', hr', token', attempt', a', ha', running', unexpired'⟩
  obtain ⟨r, hr, token⟩ := issued
  have effect := w.runEffect hr'
  have le := effect.token_le hr
  rw [token'] at le
  -- The run has not been claimed since: its token and its attempt are those of the context.
  have current : ctx.fencingToken = r.fencingToken ∧ r.attemptId = some ctx.workerAttemptId :=
    token.resolve_left (Nat.not_lt.mpr le)
  obtain ⟨a, ha, -, -⟩ := leased.named _ _ _ hr current.2
  refine stale ⟨r, hr, current.1.symm, current.2, ?_⟩
  cases w.attemptEffect ha' with
  | kept ha => exact ⟨_, ha, running', unexpired'⟩
  | added absent => cases ha.symm.trans absent
  | renewed _ ha running unexpired => exact ⟨_, ha, running, unexpired⟩
  | ended _ ha => cases running'

theorem Store.Holds.earlier {now' : Time} (h : s.Holds ctx now') (le : now ≤ now') :
    s.Holds ctx now := by
  obtain ⟨r, hr, token, attempt, a, ha, running, unexpired⟩ := h
  exact ⟨r, hr, token, attempt, a, ha, running, Nat.lt_of_le_of_lt le unexpired⟩

/-- The fence refuses a context with `STALE_WORKER` exactly when the lease is lost. -/
theorem Store.Issued.assertFence_stale (issued : s.Issued ctx) (allow : Bool) :
    s.assertFence ctx now allow = .error Store.staleWorker ↔ ¬s.Holds ctx now := by
  obtain ⟨r, hr, -⟩ := issued
  have hrun : s.run ctx.runId = .ok r := Store.run_eq_ok.mpr hr
  by_cases holds : s.Holds ctx now
  · refine iff_of_false (fun h => ?_) (not_not_intro holds)
    simp only [assertFence, hrun, ok_bind, require_pos _ holds, require_eq_error] at h
    exact absurd (congrArg HarnessError.code h.2) (by simp [runStopped, staleWorker])
  · refine iff_of_true ?_ holds
    simp only [assertFence, hrun, ok_bind, require_neg _ holds, error_bind]

/-! ## Writes of a stale context -/

/-- Every durable write of a worker is refused to the context. -/
structure Store.Fenced (s : Store) (ctx : ExecutionContext) (now : Time) : Prop where
  fence : ∀ allow, s.assertFence ctx now allow = .error staleWorker
  heartbeat : ∀ expiry, s.heartbeat ctx expiry now = .error staleWorker
  updateRun : ∀ rid expected patch,
    s.updateRun rid expected patch (some ctx) now = .error staleWorker
  updateOperation : ∀ oid expected patch,
    s.updateOperation oid expected patch (some ctx) now = .error staleWorker
  consumeGrant : ∀ gid binding policyRevision,
    s.consumeGrant ctx gid binding policyRevision now = .error staleWorker
  ackInputCommands : ∀ ids, s.ackInputCommands ctx ids now = .error staleWorker

theorem Store.Issued.fenced (issued : s.Issued ctx) (stale : ¬s.Holds ctx now) :
    s.Fenced ctx now := by
  have fence := fun allow => (issued.assertFence_stale allow).mpr stale
  refine ⟨fence, fun expiry => ?_, fun rid expected patch => ?_, fun oid expected patch => ?_,
    fun gid binding revision => ?_, fun ids => ?_⟩
  · rw [heartbeat, fence, error_bind]
  · rw [updateRun, assertFence?, fence, error_bind]
  · rw [updateOperation, assertFence?, fence, error_bind]
  · rw [consumeGrant, fence, error_bind]
  · rw [ackInputCommands, fence, error_bind]

/-- The context a worker presents with an action that the fence checks. -/
def Action.authority : Action → Option ExecutionContext
  | .heartbeat ctx | .delegate ctx _ _ _ _ | .ackInputCommands ctx _ | .settle _ ctx _
  | .prepareOperation ctx _ _ | .finishOperation ctx _ _ | .startOperation ctx _ _ _ _ _
  | .annotateOperation ctx _ _ | .suspendExchange ctx _ _ _ _ | .sendExchange ctx _ _ _
  | .prepareInteraction ctx _ _ => some ctx
  | _ => none

theorem Store.Fenced.not_ok (fenced : s.Fenced ctx now) {allow : Bool} {u : Unit}
    (h : s.assertFence ctx now allow = .ok u) : False := by
  rw [fenced.fence] at h
  cases h

/-- An action with a stale context changes nothing. -/
theorem Store.Fenced.perform {a : Action} (fenced : s.Fenced ctx now)
    (authority : a.authority = some ctx) : ¬a.perform host s now = .ok s' := by
  intro h
  cases a with
  | heartbeat =>
      cases authority
      exact fenced.not_ok (Store.heartbeat_eq_ok h).1
  | delegate =>
      cases authority
      obtain ⟨_, hdelegate, -⟩ := bind_eq_ok.mp h
      obtain ⟨_, hboundary, -⟩ := bind_eq_ok.mp hdelegate
      obtain ⟨_, fence, -⟩ := bind_eq_ok.mp hboundary
      exact fenced.not_ok fence
  | ackInputCommands =>
      cases authority
      exact fenced.not_ok (Store.ackInputCommands_eq_ok h).1
  | settle =>
      cases authority
      obtain ⟨_, -, h⟩ := bind_eq_ok.mp h
      obtain ⟨_, fence, -⟩ := bind_eq_ok.mp h
      exact fenced.not_ok fence
  | prepareOperation =>
      cases authority
      obtain ⟨_, hprepare, -⟩ := bind_eq_ok.mp h
      exact fenced.not_ok (Store.prepareOperation_eq_ok hprepare).1
  | finishOperation =>
      cases authority
      obtain ⟨_, -, h⟩ := bind_eq_ok.mp h
      obtain ⟨_, hupdate, -⟩ := bind_eq_ok.mp h
      exact fenced.not_ok (Store.updateOperation_eq_ok hupdate).1
  | startOperation =>
      cases authority
      obtain ⟨_, _, _, -, -, fence, -⟩ := startOperation_eq_ok h
      exact fenced.not_ok fence
  | annotateOperation =>
      cases authority
      obtain ⟨_, -, hupdate⟩ := bind_eq_ok.mp h
      exact fenced.not_ok (Store.updateOperation_eq_ok hupdate).1
  | suspendExchange =>
      cases authority
      obtain ⟨_, hsuspend, -⟩ := bind_eq_ok.mp h
      simp only [MiHarness.suspendExchange, bind_eq_ok] at hsuspend
      obtain ⟨_, -, _, -, _, -, _, hprepare, -⟩ := hsuspend
      exact fenced.not_ok (Store.prepareInteraction_eq_ok hprepare).1
  | sendExchange =>
      cases authority
      simp only [Action.perform, MiHarness.sendExchange, bind_eq_ok] at h
      obtain ⟨_, -, _, -, hupdate⟩ := h
      exact fenced.not_ok (Store.updateOperation_eq_ok hupdate).1
  | prepareInteraction =>
      cases authority
      obtain ⟨_, hprepare, -⟩ := bind_eq_ok.mp h
      exact fenced.not_ok (Store.prepareInteraction_eq_ok hprepare).1
  | _ => cases authority

theorem Store.Fenced.next {w : World} {a : Action} (fenced : w.store.Fenced ctx w.now)
    (authority : a.authority = some ctx) : w.next host a = none := by
  rw [Option.eq_none_iff_forall_ne_some]
  intro w' h
  rcases World.next_perform h with ⟨now, rfl, -⟩ | ⟨-, store, hperform, -⟩
  · cases authority
  · exact fenced.perform authority hperform

/-! ## Runs of the system -/

/-- The state has given out the context: it names a claimed run as it stands.  The worker
advances the input revision of its copy when it takes a steering command. -/
def World.Issues (w : World) (ctx : ExecutionContext) : Prop :=
  ∃ rid run issued, w.store.runs.get? rid = some run ∧ context w.store rid run = .ok issued ∧
    ctx = { issued with inputRevision := ctx.inputRevision }

theorem path_issued {w w' : World} (reach : (system host).Reachable w)
    (p : (system host).Path w w') (h : w.store.Issued ctx) : w'.store.Issued ctx := by
  refine p.stable (P := fun w => w.store.Issued ctx) (fun w a w' reach issued step => ?_) reach h
  exact (step_writes reach (Discipline.meets_free ..) step).2.invariant
    (I := fun t => t.Issued ctx) (fun _ _ issued w => issued.write w) issued

/-- Once lost, a lease stays lost. -/
theorem path_stale {w w' : World} (reach : (system host).Reachable w)
    (p : (system host).Path w w') (issued : w.store.Issued ctx) (stale : ¬w.store.Holds ctx w.now) :
    ¬w'.store.Holds ctx w'.now := by
  refine (p.stable (P := fun w => w.store.Issued ctx ∧ ¬w.store.Holds ctx w.now)
    (fun w a w' reach h step => ?_) reach ⟨issued, stale⟩).2
  obtain ⟨later, writes⟩ := step_writes reach (Discipline.meets_free ..) step
  have kept := writes.invariant
    (I := fun t => t.Leased ∧ t.Issued ctx ∧ ¬t.Holds ctx w.now)
    (fun _ _ h w => ⟨h.1.write w, h.2.1.write w, h.2.1.stale h.1 h.2.2 w⟩)
    ⟨reachable_leased reach, h⟩
  exact ⟨kept.2.1, fun holds => kept.2.2 (holds.earlier later)⟩

/-- The token of a run never decreases. -/
theorem path_token {w w' : World} (reach : (system host).Reachable w)
    (p : (system host).Path w w') {rid : RunId} {r : Run} (h : w.store.runs.get? rid = some r) :
    ∃ r', w'.store.runs.get? rid = some r' ∧ r.fencingToken ≤ r'.fencingToken := by
  refine p.stable (P := fun w => ∃ r', w.store.runs.get? rid = some r' ∧
    r.fencingToken ≤ r'.fencingToken) (fun w a w' reach h step => ?_) reach ⟨r, h, Nat.le_refl _⟩
  refine (step_writes reach (Discipline.meets_free ..) step).2.invariant
    (I := fun t => ∃ r', t.runs.get? rid = some r' ∧ r.fencingToken ≤ r'.fencingToken)
    (fun t t' h w => ?_) h
  obtain ⟨q, hq, le⟩ := h
  obtain ⟨q', hq', -⟩ := w.run_stays hq
  exact ⟨q', hq', le.trans ((w.runEffect hq').token_le hq)⟩

theorem takeRun_token {process : ProcessId} {rid : RunId} {run : Run} {owner : Option RunId}
    {fresh : AttemptId} (hrun : s.runs.get? rid = some run)
    (h : takeRun host s process rid run owner fresh now = .ok s') :
    ∃ r, s'.runs.get? rid = some r ∧ r.fencingToken = run.fencingToken + 1 := by
  simp only [takeRun, bind_eq_ok] at h
  obtain ⟨t, howner, u, hattempt, h⟩ := h
  obtain ⟨-, rfl⟩ := Store.setBranchOwner_eq_ok howner
  obtain ⟨attempts, -, rfl⟩ := Store.addAttempt_eq_ok hattempt
  refine ⟨_, by rw [transition_runs h, Table.get?_modify_self, hrun]; rfl, rfl⟩

theorem claimFrom_token {running : List (RunId × Run)} {process : ProcessId} {fresh : AttemptId}
    {rid : RunId} : ∀ {queued : List (RunId × Run)} {s : Store},
      (∀ e ∈ queued, s.runs.get? e.1 = some e.2 ∧ e.2.cancelRequested = false) →
      claimFrom host running process fresh now queued s = .ok (some rid, s') →
      ∃ r r', s.runs.get? rid = some r ∧ s'.runs.get? rid = some r' ∧
        r'.fencingToken = r.fencingToken + 1
  | [], _, _, h => by cases h
  | (_, run) :: rest, s, rows, h => by
      obtain ⟨hrun, goes⟩ := rows _ (List.mem_cons_self ..)
      have later := fun e he => rows e (List.mem_cons_of_mem _ he)
      simp only [claimFrom, bind_eq_ok] at h
      obtain ⟨branch, -, h⟩ := h
      split at h
      · exact claimFrom_token later h
      split at h
      · rename_i flagged
        rw [goes] at flagged
        cases flagged
      split at h
      · exact claimFrom_token later h
      · obtain ⟨t, htake, h⟩ := bind_eq_ok.mp h
        cases h
        obtain ⟨r', hr', token⟩ := takeRun_token hrun htake
        exact ⟨run, r', hrun, hr', token⟩

/-- A claim gives the run the next token. -/
theorem claim_token {process : ProcessId} {fresh : AttemptId} {rid : RunId} (go : s.QueuedGo)
    (h : claim host s process fresh now = .ok (some rid, s')) :
    ∃ r r', s.runs.get? rid = some r ∧ s'.runs.get? rid = some r' ∧
      r'.fencingToken = r.fencingToken + 1 := by
  unfold claim at h
  split at h
  · cases h
  dsimp only at h
  split at h
  · cases h
  · refine claimFrom_token (fun e he => ?_) h
    obtain ⟨hrow, hstatus⟩ := Store.mem_runsWith.mp he
    exact ⟨hrow, go e.1 e.2 hrow (List.mem_singleton.mp hstatus)⟩

/-- In every state at most one attempt and token of a run pass the fence, a later claim of a run
gives a greater token, and a context that was refused as stale is refused for ever. -/
theorem lease_fencing {w : World} (reach : (system host).Reachable w) :
    (∀ ctx ctx' allow allow', ctx.runId = ctx'.runId →
      w.store.assertFence ctx w.now allow = .ok () →
      w.store.assertFence ctx' w.now allow' = .ok () →
      ctx.workerAttemptId = ctx'.workerAttemptId ∧ ctx.fencingToken = ctx'.fencingToken) ∧
    (∀ process fresh rid store, claim host w.store process fresh w.now = .ok (some rid, store) →
      ∃ r, store.runs.get? rid = some r ∧ ∀ w', (system host).Path { w with store } w' →
        ∀ process' fresh' store',
          claim host w'.store process' fresh' w'.now = .ok (some rid, store') →
          ∃ r', store'.runs.get? rid = some r' ∧ r.fencingToken < r'.fencingToken) ∧
    (∀ ctx allow, w.Issues ctx → ∀ w₁, (system host).Path w w₁ →
      w₁.store.assertFence ctx w₁.now allow = .error Store.staleWorker →
      ∀ w₂, (system host).Path w₁ w₂ → w₂.store.Fenced ctx w₂.now ∧
        ∀ a : Action, a.authority = some ctx → w₂.next host a = none) := by
  refine ⟨fun ctx ctx' allow allow' same h h' => ?_, fun process fresh rid store h => ?_,
    fun ctx allow issues w₁ p refused w₂ q => ?_⟩
  · obtain ⟨r, -, ⟨row, hrow, token, attempt, -⟩, -⟩ := Store.assertFence_eq_ok.mp h
    obtain ⟨r', -, ⟨row', hrow', token', attempt', -⟩, -⟩ := Store.assertFence_eq_ok.mp h'
    rw [same] at hrow
    cases hrow.symm.trans hrow'
    exact ⟨Option.some.inj (attempt.symm.trans attempt'), token.symm.trans token'⟩
  · obtain ⟨-, r, -, hr, -⟩ := claim_token (reachable_base reach).queuedGo h
    have step : (system host).step w (.claim process fresh) { w with store } := by
      show World.next host w _ = _
      simp [World.next, Action.admissible, Action.perform, h]
    refine ⟨r, hr, fun w' p process' fresh' store' h' => ?_⟩
    have reach' := (reach.step step).path p
    obtain ⟨q, hq, le⟩ := path_token (reach.step step) p hr
    obtain ⟨q₁, r', hq₁, hr', next⟩ := claim_token (reachable_base reach').queuedGo h'
    cases hq.symm.trans hq₁
    exact ⟨r', hr', by omega⟩
  · obtain ⟨rid, run, original, hrun, hcontext, copy⟩ := issues
    have first : w.store.Issued original := .of_context hrun hcontext
    have given : w.store.Issued ctx := by
      rw [copy]
      exact first
    have issued := path_issued reach p given
    have stale := path_stale (reach.path p) q issued ((issued.assertFence_stale allow).mp refused)
    have fenced := (path_issued (reach.path p) q issued).fenced stale
    exact ⟨fenced, fun a authority => fenced.next authority⟩

/-- A worker outlives its lease, and another worker takes the run over. -/
theorem lease_fencing_takeover : ∃ w w₁ w₂, (system Sample.host).Reachable w ∧
    (system Sample.host).Path w w₁ ∧ (system Sample.host).Path w₁ w₂ ∧
    w₁.store.assertFence (Sample.context 20 1) w₁.now true = .error Store.staleWorker ∧
    w₂.store.Fenced (Sample.context 20 1) w₂.now := by
  let next := World.next Sample.host
  have run : (System.runs next Sample.start (Sample.submitted ++ [.claim ⟨1, 1⟩ 20])).any
      (fun w => (w.store.runs.get? 10).any (fun r =>
          context w.store 10 r = .ok (Sample.context 20 1)) &&
        (System.runs next w [.tick 40000]).any fun w₁ =>
          decide (w₁.store.assertFence (Sample.context 20 1) w₁.now true =
            .error Store.staleWorker) &&
          (System.runs next w₁ [.recoverRun Sample.machine 10, .claim ⟨2, 1⟩ 21]).isSome) = true := by
    decide
  simp only [Option.any_eq_true, Bool.and_eq_true, decide_eq_true_eq, Option.isSome_iff_exists]
    at run
  obtain ⟨w, hw, ⟨r, hr, hcontext⟩, w₁, h₁, refused, w₂, h₂⟩ := run
  have reach := Sample.reachable hw
  refine ⟨w, w₁, w₂, reach, .runs h₁, .runs h₂, refused, ?_⟩
  exact ((lease_fencing reach).2.2 _ _ ⟨10, r, _, hr, hcontext, rfl⟩ _ (.runs h₁) refused _ (.runs h₂)).1

end MiHarness

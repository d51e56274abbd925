import MiHarness.Scheduler.Refinement.Step
import MiHarness.Storage.Conservation

/-!
# What a transaction enters in the books

`Booked` is what every transaction says of the runs that it finds: the events it records, of which
those of type `run.` carry the status and the revision that the row of the run then has; the rows,
whose place in the tree does not change; and the ledger, on which it only calls `reserve` and
`settle` for tools.  `submit` and `delegate` also create a run, and `delegate` a reservation
for it; what they do is said where they are looked at.
-/

namespace MiHarness

open Library

/-! ## Events -/

/-- The types that start with `run.`. -/
def EventType.ofRun : EventType → Bool
  | .runQueued | .runStarted | .runStateChanged | .runCompleted | .runFailed | .runCancelled => true
  | _ => false

/-- An event without its sequence number. -/
structure Entry where
  runId : RunId
  type : EventType
  data : EventData
  timestamp : Time

namespace EventLog

/-- Record an event at the next sequence number of its run. -/
def record (log : EventLog) (e : Entry) : EventLog where
  next := fun r => if r = e.runId then log.next r + 1 else log.next r
  entries := log.entries ++
    [{ runId := e.runId, seq := log.next e.runId, type := e.type, data := e.data
       timestamp := e.timestamp }]

end EventLog

/-- The revision and the status of a run that are known after an event. -/
def Entry.tell (rid : RunId) (known : Nat × RunStatus) (e : Entry) : Nat × RunStatus :=
  match e.data with
  | .state revision status _ _ _ =>
      if e.runId = rid ∧ e.type.ofRun = true ∧ known.1 ≤ revision then (revision, status) else known
  | _ => known

/-- A type that starts with `run.` is that of a state. -/
def Entry.Sound (e : Entry) : Prop :=
  e.type ≠ .messageCommitted ∧
    (e.type.ofRun = true → ∃ revision status reason resultRef error,
      e.data = .state revision status reason resultRef error)

/-! ## The ledger -/

/-- A call on the ledger that has nothing to do with children. -/
def Ledger.Call.forTools : Ledger.Call → Prop
  | .addAccount _ _ => False
  | .reserve _ key items => (∀ child, key ≠ .child child) ∧ .children ∉ items.amount
  | .settle key _ => ∀ child, key ≠ .child child

/-- What calls for tools do to the ledger. -/
def Ledger.Billed : Ledger → Ledger → Prop :=
  Relation.ReflTransGen fun l l' => ∃ call : Ledger.Call, call.forTools ∧ l.perform call = .ok l'

/-! ## Transactions -/

/-- Where a run stands: in the tree, on which branch and under which configuration. -/
def Run.place (r : Run) : RunId × Option RunId × Nat × BranchId × SnapshotId :=
  (r.rootRunId, r.parentRunId, r.depth, r.branchId, r.snapshotId)

/-- The events tell the status of every run, to whom knows the run at a revision it has had. -/
def Store.Tells (s t : Store) (new : List Entry) : Prop :=
  ∀ rid run known, s.runs.get? rid = some run → known ≤ run.revision →
    ∃ run', t.runs.get? rid = some run' ∧
      (new.foldl (Entry.tell rid) (known, run.status)).1 ≤ run'.revision ∧
      (new.foldl (Entry.tell rid) (known, run.status)).2 = run'.status

structure Booked (s t : Store) : Prop where
  log : ∃ new : List Entry, t.events = new.foldl EventLog.record s.events ∧
    (∀ e ∈ new, e.Sound) ∧ s.Tells t new
  places : ∀ rid, (t.runs.get? rid).map Run.place = (s.runs.get? rid).map Run.place
  dependencies : t.dependencies = s.dependencies
  ledger : s.ledger.Billed t.ledger

namespace Booked

variable {s t u : Store} {now : Time}

theorem refl : Booked s s where
  log := ⟨[], rfl, fun _ he => absurd he List.not_mem_nil, fun _ run _ h known =>
    ⟨run, h, known, rfl⟩⟩
  places _ := rfl
  dependencies := rfl
  ledger := .refl

theorem trans (h : Booked s t) (k : Booked t u) : Booked s u where
  log := by
    obtain ⟨new, hlog, sound, tells⟩ := h.log
    obtain ⟨new', hlog', sound', tells'⟩ := k.log
    refine ⟨new ++ new', ?_, fun e he => ?_, fun rid run known hrun bound => ?_⟩
    · rw [hlog', hlog, List.foldl_append]
    · rcases List.mem_append.mp he with he | he
      · exact sound e he
      · exact sound' e he
    · obtain ⟨run', hrun', bound', status⟩ := tells rid run known hrun bound
      obtain ⟨run'', hrun'', bound'', status'⟩ := tells' rid run' _ hrun' bound'
      refine ⟨run'', hrun'', ?_⟩
      rw [List.foldl_append]
      rw [← status] at bound'' status'
      exact ⟨bound'', status'⟩
  places rid := (k.places rid).trans (h.places rid)
  dependencies := k.dependencies.trans h.dependencies
  ledger := h.ledger.trans k.ledger

/-- A transaction that touches neither runs nor the books. -/
theorem of_eq (runs : t.runs = s.runs) (events : t.events = s.events)
    (dependencies : t.dependencies = s.dependencies) (ledger : t.ledger = s.ledger) :
    Booked s t where
  log := ⟨[], events, fun _ he => absurd he List.not_mem_nil, fun _ run _ h known =>
    ⟨run, runs ▸ h, known, rfl⟩⟩
  places _ := by rw [runs]
  dependencies := dependencies
  ledger := ledger ▸ .refl

/-- An event that is not about the state of a run. -/
theorem event {rid : RunId} {type : EventType} {data : EventData}
    (other : type.ofRun = false) (plain : type ≠ .messageCommitted) :
    Booked s (s.event rid type data now) where
  log := by
    refine ⟨[⟨rid, type, data, now⟩], rfl, fun e he => ?_, fun rid' run known hrun bound =>
      ⟨run, hrun, ?_⟩⟩
    · cases List.mem_singleton.mp he
      exact ⟨plain, fun state => by cases other.symm.trans state⟩
    · have silent : Entry.tell rid' (known, run.status) ⟨rid, type, data, now⟩ =
          (known, run.status) := by
        unfold Entry.tell
        split
        · rw [if_neg fun h => by cases other.symm.trans h.2.1]
        · rfl
      rw [List.foldl_cons, List.foldl_nil, silent]
      exact ⟨bound, rfl⟩
  places _ := rfl
  dependencies := rfl
  ledger := .refl

/-- A patch of a run that is not about its status. -/
theorem patched (rid : RunId) (patch : RunPatch) (keeps : patch.status = none) :
    Booked s { s with runs := s.runs.modify rid patch.apply } where
  log := by
    refine ⟨[], rfl, fun _ he => absurd he List.not_mem_nil, fun rid' run known hrun bound => ?_⟩
    by_cases same : rid' = rid
    · subst same
      refine ⟨patch.apply run, by rw [Table.get?_modify_self, hrun]; rfl, ?_, ?_⟩
      · exact Nat.le_succ_of_le bound
      · simp [RunPatch.apply, keeps]
    · exact ⟨run, (Table.get?_modify_ne _ _ same).trans hrun, bound, rfl⟩
  places rid' := by
    rw [Table.get?_modify]
    split
    · rw [Option.map_map]
      rfl
    · rfl
  dependencies := rfl
  ledger := .refl

/-- A call on the ledger for a tool. -/
theorem call (call : Ledger.Call) {ledger : Ledger} (forTools : call.forTools)
    (h : s.ledger.perform call = .ok ledger) : Booked s { s with ledger } where
  log := refl.log
  places _ := rfl
  dependencies := rfl
  ledger := .single ⟨call, forTools, h⟩

/-- A loop whose turns keep the books keeps them. -/
theorem foldlM {α : Type} {f : Store → α → Except HarnessError Store} {l : List α}
    (h : l.foldlM f s = .ok t) (turn : ∀ a ∈ l, ∀ u v, f u a = .ok v → Booked u v) : Booked s t :=
  foldlM_closed (fun _ => refl) (fun _ _ _ => trans) h fun a ha u v _ => turn a ha u v

theorem foldl {α : Type} {f : Store → α → Store} (turn : ∀ u a, Booked u (f u a)) :
    ∀ (l : List α) (s : Store), Booked s (l.foldl f s)
  | [], _ => refl
  | a :: l, s => (turn s a).trans (foldl turn l (f s a))

end Booked

/-! ## Transitions -/

variable {s s' t : Store} {now : Time}

theorem Ledger.Billed.trans {l l' l'' : Ledger} (h : l.Billed l') (k : l'.Billed l'') :
    l.Billed l'' :=
  Relation.ReflTransGen.trans h k

theorem Booked.cancelInteractions (s : Store) (rid : RunId) (reason : String) (now : Time) :
    Booked s (s.cancelInteractions rid reason now) := by
  have closed : Booked s { s with
      interactions := s.interactions.mapRows fun _ i => i.close rid reason } := .of_eq rfl rfl rfl rfl
  refine closed.trans (.foldl (f := fun s (e : InteractionId × Interaction) =>
    s.event rid .interactionResolved (.resolved e.1 (e.2.revision + 1) .cancelled) now)
    (fun _ _ => .event rfl (by simp)) _ _)

theorem Booked.cancelOperations {rid : RunId} (h : s.cancelOperations rid now = .ok s') :
    Booked s s' := by
  unfold Store.cancelOperations at h
  obtain ⟨ledger, hledger, h⟩ := bind_eq_ok.mp h
  cases h
  have billed : s.ledger.Billed ledger := by
    refine foldlM_closed (R := Ledger.Billed) (fun _ => .refl) (fun _ _ _ => .trans) hledger ?_
    intro e _ l l' _ hturn
    split at hturn
    · exact .single ⟨.settle (.tool e.1) (some (Store.unstartedUse e.2.toolId)), by rintro _ ⟨⟩, hturn⟩
    · cases hturn
      exact .refl
  refine Booked.trans (t := { s with
    ledger, operations := s.operations.mapRows fun id o => o.close rid now id }) ?_
    (.foldl (fun _ _ => .event rfl (by simp)) _ _)
  exact { refl with ledger := billed }

/-- What ends with a run whose branch has been released. -/
theorem Booked.closed {rid : RunId} {u : Store} (released : Booked s t)
    (h : ((t.revokeGrants rid []).cancelInteractions rid "run_terminal" now).cancelOperations rid now =
      .ok u) : Booked s u := by
  have revoked : Booked t (t.revokeGrants rid []) := .of_eq rfl rfl rfl rfl
  exact ((released.trans revoked).trans (.cancelInteractions _ rid "run_terminal" now)).trans
    (.cancelOperations h)

theorem Booked.toldParent {rid parent : RunId} {data : EventData} (closed : Booked s t) :
    Booked s ((t.notifyParent rid parent).event parent .childCompleted data now) := by
  have told : Booked t (t.notifyParent rid parent) := .of_eq rfl rfl rfl rfl
  exact (closed.trans told).trans (.event rfl (by simp))

theorem Booked.finishRun {rid : RunId} {run : Run} (h : s.finishRun rid run now = .ok s') :
    Booked s s' := by
  have released : ∃ t u, Booked s t ∧
      ((t.revokeGrants rid []).cancelInteractions rid "run_terminal" now).cancelOperations rid now =
        .ok u ∧ Booked u s' := by
    cases hparent : run.parentRunId with
    | none =>
        simp only [Store.finishRun, hparent, bind_eq_ok] at h
        obtain ⟨branch, -, h⟩ := h
        split at h
        · obtain ⟨t, hbranch, h⟩ := bind_eq_ok.mp h
          obtain ⟨-, rfl⟩ := Store.setBranchOwner_eq_ok hbranch
          obtain ⟨u, hcancel, h⟩ := bind_eq_ok.mp h
          cases h
          refine ⟨_, _, ?_, hcancel, .refl⟩
          exact .of_eq rfl rfl rfl rfl
        · obtain ⟨t, hsame, h⟩ := bind_eq_ok.mp h
          cases hsame
          obtain ⟨u, hcancel, h⟩ := bind_eq_ok.mp h
          cases h
          exact ⟨s, _, .refl, hcancel, .refl⟩
    | some parent =>
        simp only [Store.finishRun, hparent, bind_eq_ok] at h
        obtain ⟨branch, -, h⟩ := h
        split at h
        · obtain ⟨t, hbranch, h⟩ := bind_eq_ok.mp h
          obtain ⟨-, rfl⟩ := Store.setBranchOwner_eq_ok hbranch
          obtain ⟨u, hcancel, h⟩ := bind_eq_ok.mp h
          cases h
          refine ⟨_, _, ?_, hcancel, .toldParent .refl⟩
          exact .of_eq rfl rfl rfl rfl
        · obtain ⟨t, hsame, h⟩ := bind_eq_ok.mp h
          cases hsame
          obtain ⟨u, hcancel, h⟩ := bind_eq_ok.mp h
          cases h
          exact ⟨s, _, .refl, hcancel, .toldParent .refl⟩
  obtain ⟨t, u, booked, hcancel, told⟩ := released
  exact (booked.closed hcancel).trans told

/-- What is known of the revision does not depend on the status that was known. -/
theorem Entry.tell_fst (rid : RunId) : ∀ (new : List Entry) (known : Nat) (status status' : RunStatus),
    (new.foldl (Entry.tell rid) (known, status)).1 = (new.foldl (Entry.tell rid) (known, status')).1
  | [], _, _, _ => rfl
  | e :: new, known, status, status' => by
      have heads : ∃ revision st st', Entry.tell rid (known, status) e = (revision, st) ∧
          Entry.tell rid (known, status') e = (revision, st') := by
        unfold Entry.tell
        split
        · split
          · exact ⟨_, _, _, rfl, rfl⟩
          · exact ⟨_, _, _, rfl, rfl⟩
        · exact ⟨_, _, _, rfl, rfl⟩
      obtain ⟨revision, st, st', h, h'⟩ := heads
      rw [List.foldl_cons, List.foldl_cons, h, h']
      exact Entry.tell_fst rid new revision st st'

theorem RunStatus.ofRun_eventType (status : RunStatus) : status.eventType.ofRun = true := by
  cases status <;> rfl

/-- A change of status and the event that tells it. -/
theorem Booked.stated {rid : RunId} {run : Run} {patch : RunPatch} {type : EventType}
    {reason : Option String} (hrun : s.runs.get? rid = some run) (ofRun : type.ofRun = true)
    (booked : Booked { s with runs := s.runs.modify rid patch.apply } t)
    (runs : t.runs = s.runs.modify rid patch.apply) :
    Booked s (t.eventState rid (patch.apply run) type reason now) where
  log := by
    obtain ⟨new, hlog, sound, tells⟩ := booked.log
    have row : (s.runs.modify rid patch.apply).get? rid = some (patch.apply run) := by
      rw [Table.get?_modify_self, hrun]
      rfl
    refine ⟨new ++ [⟨rid, type, .state (patch.apply run).revision (patch.apply run).status reason
      (patch.apply run).resultRef (patch.apply run).error, now⟩], ?_, fun e he => ?_,
      fun rid' run' known hrun' bound => ?_⟩
    · rw [List.foldl_append, ← hlog]
      rfl
    · rcases List.mem_append.mp he with he | he
      · exact sound e he
      · cases List.mem_singleton.mp he
        refine ⟨fun same => ?_, fun _ => ⟨_, _, _, _, _, rfl⟩⟩
        dsimp only at same
        rw [same] at ofRun
        cases ofRun
    · rw [List.foldl_append, List.foldl_cons, List.foldl_nil]
      by_cases same : rid' = rid
      · subst same
        cases hrun.symm.trans hrun'
        obtain ⟨run₂, hrun₂, bound₂, -⟩ := tells rid' (patch.apply run) known row
          (Nat.le_succ_of_le bound)
        have last : run₂ = patch.apply run := Option.some.inj (hrun₂.symm.trans (runs ▸ row))
        subst last
        refine ⟨patch.apply run, hrun₂, ?_⟩
        rw [Entry.tell_fst rid' new known _ run.status] at bound₂
        rw [Entry.tell]
        dsimp only
        rw [if_pos ⟨rfl, ofRun, bound₂⟩]
        exact ⟨Nat.le_refl _, rfl⟩
      · obtain ⟨run₂, hrun₂, bound₂, status⟩ := tells rid' run' known
          ((Table.get?_modify_ne _ _ same).trans hrun') bound
        refine ⟨run₂, hrun₂, ?_⟩
        rw [Entry.tell]
        dsimp only
        rw [if_neg fun h => same h.1.symm]
        exact ⟨bound₂, status⟩
  places rid' := by
    show (t.runs.get? rid').map Run.place = _
    rw [runs, Table.get?_modify]
    split
    · rw [Option.map_map]
      rfl
    · rfl
  dependencies := booked.dependencies
  ledger := booked.ledger

theorem Booked.transition {rid : RunId} {status : RunStatus} {ctx : Option ExecutionContext}
    {reason : Option String} {extra : RunPatch}
    (h : transition s rid status ctx reason extra now = .ok s') : Booked s s' := by
  have runs := transition_runs h
  simp only [MiHarness.transition, bind_eq_ok, Store.run_eq_ok, require_eq_ok, exists_const] at h
  obtain ⟨run, hrun, -, t, hupdate, updated, hupdated, h⟩ := h
  obtain ⟨-, -, rfl⟩ := Store.updateRun_eq_ok hupdate
  have row : updated = { extra with status := some status }.apply run := by
    simpa [hrun] using hupdated.symm
  subst row
  split at h
  · obtain ⟨u, hfinish, h⟩ := bind_eq_ok.mp h
    cases h
    exact .stated hrun status.ofRun_eventType (.finishRun hfinish) runs
  · cases h
    exact .stated hrun status.ofRun_eventType .refl runs

/-! ## Waits and answers -/

theorem Booked.wake {rid : RunId} (h : wake s rid now = .ok s') : Booked s s' := by
  simp only [MiHarness.wake, bind_eq_ok] at h
  obtain ⟨run, -, h⟩ := h
  split at h
  · exact .transition h
  · cases h
    exact .refl

theorem Booked.refreshWait {wid : WaitId} {wait : Wait} (h : refreshWait s wid wait now = .ok s') :
    Booked s s' := by
  unfold MiHarness.refreshWait at h
  split at h
  · cases h
    exact .refl
  · obtain ⟨children, -, h⟩ := bind_eq_ok.mp h
    split at h
    · obtain ⟨t, hupdate, hwake⟩ := bind_eq_ok.mp h
      obtain ⟨-, rfl⟩ := Store.updateWait_eq_ok hupdate
      refine Booked.trans ?_ (.wake hwake)
      exact .of_eq rfl rfl rfl rfl
    · cases h
      exact .refl

theorem Booked.refreshWaitsOf {parent : Option RunId} (h : refreshWaitsOf s parent now = .ok s') :
    Booked s s' :=
  .foldlM h fun _ _ _ _ => .refreshWait

theorem Booked.refreshWaits (h : refreshWaits s now = .ok s') : Booked s s' := by
  obtain ⟨t, hall, h⟩ := bind_eq_ok.mp h
  refine (Booked.refreshWaitsOf hall).trans (.foldlM h fun e _ u v hturn => ?_)
  obtain ⟨w, hof, hturn⟩ := bind_eq_ok.mp hturn
  cases hturn
  exact (Booked.refreshWaitsOf hof).trans (.of_eq rfl rfl rfl rfl)

theorem Booked.respond {host : Host} {owner : OwnerId} {iid : InteractionId}
    {request : RespondRequest} (h : respond host s owner iid request now = .ok s') :
    Booked s s' := by
  simp only [MiHarness.respond, bind_eq_ok, require_eq_ok, exists_const] at h
  obtain ⟨i, -, run, -, -, -, -, -, -, t, hupdate, hwake⟩ := h
  obtain rfl := Store.updateInteraction_eq_ok hupdate
  refine (Booked.trans ?_ (.event rfl (by simp))).trans (.wake hwake)
  exact .of_eq rfl rfl rfl rfl

theorem Booked.expireInteraction {iid : InteractionId} {i : Interaction}
    (h : expireInteraction s iid i now = .ok s') : Booked s s' := by
  unfold MiHarness.expireInteraction at h
  split at h
  · obtain ⟨t, hupdate, h⟩ := bind_eq_ok.mp h
    obtain rfl := Store.updateInteraction_eq_ok hupdate
    cases h
    refine Booked.trans ?_ (.event rfl (by simp))
    exact .of_eq rfl rfl rfl rfl
  · cases h
    exact .refl

theorem Booked.expireInteractions (h : expireInteractions s now = .ok s') : Booked s s' := by
  refine .foldlM h fun e _ u v hturn => ?_
  obtain ⟨w, hinner, hwake⟩ := bind_eq_ok.mp hturn
  exact (Booked.foldlM hinner fun _ _ _ _ => .expireInteraction).trans (.wake hwake)

/-! ## The end of an attempt -/

theorem Booked.endAttempt (s : Store) (aid : AttemptId) (reason : String) (now : Time) :
    Booked s (s.endAttempt aid reason now) :=
  .of_eq rfl rfl rfl rfl

theorem Booked.bindInterrupt {ctx : ExecutionContext} {checkpoint : CheckpointRef}
    {ref : InterruptRef} (h : bindInterrupt s ctx checkpoint ref now = .ok s') : Booked s s' := by
  unfold MiHarness.bindInterrupt at h
  split at h
  · simp only [bind_eq_ok] at h
    obtain ⟨i, -, _, -, h⟩ := h
    split at h
    · obtain ⟨t, hupdate, h⟩ := bind_eq_ok.mp h
      obtain rfl := Store.updateInteraction_eq_ok hupdate
      cases h
      refine Booked.trans ?_ (.event rfl (by simp))
      exact .of_eq rfl rfl rfl rfl
    · cases h
      exact .refl
  · obtain ⟨w, -, h⟩ := bind_eq_ok.mp h
    obtain ⟨-, rfl⟩ := Store.updateWait_eq_ok h
    exact .of_eq rfl rfl rfl rfl
  · obtain ⟨o, -, h⟩ := bind_eq_ok.mp h
    split at h
    · obtain ⟨-, -, rfl⟩ := Store.updateOperation_eq_ok h
      exact .of_eq rfl rfl rfl rfl
    · cases h
      exact .refl

theorem Booked.settleWaiting {ctx : ExecutionContext} {outcome : RuntimeOutcome}
    (h : settleWaiting s ctx outcome now = .ok s') : Booked s s' := by
  simp only [MiHarness.settleWaiting, bind_eq_ok] at h
  obtain ⟨checkpoint, -, t, hbind, u, hmove, v, hrefresh, hwake⟩ := h
  exact (((Booked.foldlM hbind fun _ _ _ _ => .bindInterrupt).trans (.transition hmove)).trans
    ((Booked.endAttempt ..).trans (.refreshWaitsOf hrefresh))).trans (.wake hwake)

theorem Booked.settleCancelling {ctx : ExecutionContext}
    (h : settleCancelling s ctx now = .ok s') : Booked s s' := by
  unfold MiHarness.settleCancelling at h
  split at h
  · obtain ⟨t, hmove, h⟩ := bind_eq_ok.mp h
    cases h
    exact (Booked.transition hmove).trans (.endAttempt ..)
  · cases h
    exact .endAttempt ..

theorem Booked.settleEnded {readable : ArtifactId → OwnerId → Bool} {ctx : ExecutionContext}
    {outcome : RuntimeOutcome} (h : settleEnded s readable ctx outcome now = .ok s') :
    Booked s s' := by
  unfold MiHarness.settleEnded at h
  split at h
  · obtain ⟨t, hmove, h⟩ := bind_eq_ok.mp h
    cases h
    exact (Booked.transition hmove).trans (.endAttempt ..)
  · split at h
    · obtain ⟨t, hfinal, h⟩ := bind_eq_ok.mp h
      cases h
      simp only [settleFinal, bind_eq_ok, require_eq_ok, exists_const] at hfinal
      obtain ⟨-, -, result, -, -, -, hmove⟩ := hfinal
      exact (Booked.transition hmove).trans (.endAttempt ..)
    · obtain ⟨t, hmove, h⟩ := bind_eq_ok.mp h
      cases h
      exact (Booked.transition hmove).trans (.endAttempt ..)

theorem Booked.settle {readable : ArtifactId → OwnerId → Bool} {ctx : ExecutionContext}
    {outcome : RuntimeOutcome} (h : settle s readable ctx outcome now = .ok s') : Booked s s' := by
  simp only [MiHarness.settle, bind_eq_ok, require_eq_ok, exists_const] at h
  obtain ⟨-, _, -, run, -, t, hrecord, h⟩ := h
  have recorded : Booked s t := by
    unfold recordCheckpoint at hrecord
    split at hrecord
    · obtain ⟨-, -, rfl⟩ := Store.updateRun_eq_ok hrecord
      exact .patched ctx.runId _ rfl
    · cases hrecord
      exact .refl
  split at h
  · exact recorded.trans (.settleCancelling h)
  · split at h
    · exact recorded.trans (.settleWaiting h)
    · exact recorded.trans (.settleEnded h)

/-! ## Cancellation -/

theorem Booked.cancelRun {reason : String} {rid : RunId} {run : Run}
    (h : cancelRun s reason rid run now = .ok s') : Booked s s' := by
  unfold MiHarness.cancelRun at h
  split at h
  · cases h
    exact .refl
  · obtain ⟨t, hupdate, h⟩ := bind_eq_ok.mp h
    obtain ⟨-, -, rfl⟩ := Store.updateRun_eq_ok hupdate
    have revoked : Booked { s with
        runs := s.runs.modify rid (RunPatch.apply { cancelRequested := some true }) }
        (Store.revokeGrants { s with
          runs := s.runs.modify rid (RunPatch.apply { cancelRequested := some true }) } rid []) :=
      .of_eq rfl rfl rfl rfl
    have closed := ((Booked.patched rid { cancelRequested := some true } rfl).trans revoked).trans
      (.cancelInteractions _ rid reason now)
    dsimp only at h
    split at h
    · exact closed.trans (.transition h)
    · split at h
      · exact closed.trans (.transition h)
      · cases h
        exact closed

theorem Booked.cancel {owner : OwnerId} {rid : RunId} {reason : String}
    (h : cancel s owner rid reason now = .ok s') : Booked s s' := by
  obtain ⟨_, -, h⟩ := bind_eq_ok.mp h
  exact .foldlM h fun _ _ _ _ => .cancelRun

theorem Booked.finishIdle (h : finishIdle s now = .ok s') : Booked s s' := by
  refine .foldlM h fun e _ u v hturn => ?_
  unfold finishIdleRun at hturn
  split at hturn
  · cases hturn
    exact .refl
  · split at hturn
    · exact .transition hturn
    · cases hturn
      exact .refl

/-! ## Claims -/

theorem Booked.takeRun {host : Host} {process : ProcessId} {rid : RunId} {run : Run}
    {owner : Option RunId} {fresh : AttemptId}
    (h : takeRun host s process rid run owner fresh now = .ok s') : Booked s s' := by
  simp only [MiHarness.takeRun, bind_eq_ok] at h
  obtain ⟨t, hbranch, u, hattempt, hmove⟩ := h
  obtain ⟨-, rfl⟩ := Store.setBranchOwner_eq_ok hbranch
  obtain ⟨attempts, -, rfl⟩ := Store.addAttempt_eq_ok hattempt
  refine Booked.trans ?_ (.transition hmove)
  exact .of_eq rfl rfl rfl rfl

theorem Booked.claimFrom {host : Host} {running : List (RunId × Run)} {process : ProcessId}
    {fresh : AttemptId} {taken : Option RunId} : ∀ {listed : List (RunId × Run)} {s s' : Store},
    claimFrom host running process fresh now listed s = .ok (taken, s') → Booked s s'
  | [], _, _, h => by
      cases h
      exact .refl
  | (rid, run) :: rest, s, s', h => by
      simp only [MiHarness.claimFrom, bind_eq_ok] at h
      obtain ⟨branch, -, h⟩ := h
      split at h
      · exact Booked.claimFrom h
      · split at h
        · obtain ⟨t, hmove, h⟩ := bind_eq_ok.mp h
          exact (Booked.transition hmove).trans (Booked.claimFrom h)
        · split at h
          · exact Booked.claimFrom h
          · obtain ⟨t, htake, h⟩ := bind_eq_ok.mp h
            cases h
            exact .takeRun htake

theorem Booked.claim {host : Host} {process : ProcessId} {fresh : AttemptId} {taken : Option RunId}
    (h : claim host s process fresh now = .ok (taken, s')) : Booked s s' := by
  unfold MiHarness.claim at h
  split at h
  · cases h
    exact .refl
  · dsimp only at h
    split at h
    · cases h
      exact .refl
    · exact .claimFrom h

/-! ## Recovery and reconciliation -/

theorem Booked.updateOperation {oid : OperationId} {expected : Nat} {patch : OperationPatch}
    {ctx : Option ExecutionContext} (h : s.updateOperation oid expected patch ctx now = .ok s') :
    Booked s s' := by
  obtain ⟨-, -, rfl⟩ := Store.updateOperation_eq_ok h
  exact .of_eq rfl rfl rfl rfl

theorem Booked.recoverOperation {host : Host} {machine : Machine} {continuations : List OperationId}
    {acc acc' : Bool × Store} {oid : OperationId} {o : Operation}
    (h : recoverOperation host machine continuations acc oid o now = .ok acc') :
    Booked acc.2 acc'.2 := by
  obtain ⟨unknown, s⟩ := acc
  unfold MiHarness.recoverOperation at h
  dsimp only at h
  have lost : ∀ {acc' : Bool × Store}, (do
      let s ← s.updateOperation oid o.revision { state := some .unknown } none now
      Except.ok (true, s)) = .ok acc' → Booked s acc'.2 := by
    intro acc' h
    obtain ⟨t, hupdate, h⟩ := bind_eq_ok.mp h
    cases h
    exact .updateOperation hupdate
  split at h
  · cases h
    exact .refl
  split at h
  · cases h
    exact .refl
  split at h
  · exact lost h
  split at h
  · obtain ⟨t, hupdate, h⟩ := bind_eq_ok.mp h
    cases h
    exact .updateOperation hupdate
  · obtain ⟨spec, -, h⟩ := bind_eq_ok.mp h
    split at h
    · obtain ⟨t, hupdate, h⟩ := bind_eq_ok.mp h
      cases h
      exact .updateOperation hupdate
    · exact lost h

theorem Booked.recoverAttempt {host : Host} {machine : Machine} {rid : RunId} {aid : AttemptId}
    {alive : Bool} (h : recoverAttempt host machine s rid aid alive now = .ok s') : Booked s s' := by
  simp only [MiHarness.recoverAttempt, bind_eq_ok] at h
  obtain ⟨run, -, h⟩ := h
  split at h
  · cases h
    exact .refl
  obtain ⟨t, hlost, h⟩ := bind_eq_ok.mp h
  have lost : Booked s t := by
    unfold markLost at hlost
    split at hlost
    · exact .transition hlost
    · cases hlost
      exact .refl
  refine lost.trans (Booked.trans (t := t.revokeGrants rid
    ((t.continuations rid).filterMap fun e => e.2.grantId)) (.of_eq rfl rfl rfl rfl) ?_)
  split at h
  · cases h
    exact .refl
  simp only [settleLost, bind_eq_ok] at h
  obtain ⟨⟨unknown, u⟩, hoperations, h⟩ := h
  have ended := Booked.endAttempt (t.revokeGrants rid
    ((t.continuations rid).filterMap fun e => e.2.grantId)) aid "worker_lost" now
  refine ended.trans (Booked.trans (t := u) ?_ ?_)
  · exact foldlM_closed (R := fun acc acc' : Bool × Store => Booked acc.2 acc'.2) (fun _ => .refl)
      (fun _ _ _ => .trans) hoperations fun _ _ _ _ _ => .recoverOperation
  · simp only [releaseLost, bind_eq_ok] at h
    obtain ⟨run, -, h⟩ := h
    split at h
    · split at h
      · exact .transition h
      · exact .transition h
    · cases h
      exact .refl

theorem Booked.recoverRun {host : Host} {machine : Machine} {rid : RunId} {listed : Run}
    (h : recoverRun host machine s rid listed now = .ok s') : Booked s s' := by
  unfold MiHarness.recoverRun at h
  split at h
  · cases h
    exact .refl
  split at h
  · cases h
    exact .refl
  split at h
  · cases h
    exact .refl
  dsimp only at h
  split at h
  · cases h
  · exact .recoverAttempt h

theorem Booked.reconcile {machine : Machine} {owner : OwnerId} {oid : OperationId}
    {request : ReconcileRequest} (h : reconcile machine s owner oid request now = .ok s') :
    Booked s s' := by
  simp only [MiHarness.reconcile, reconcileOperation, bind_eq_ok, require_eq_ok, exists_const,
    Except.ok.injEq] at h
  obtain ⟨o, -, run, -, -, ⟨permitted, t⟩,
    ⟨o', -, run', -, -, -, -, ⟨patch, action⟩, -, u, hupdate, h'⟩, h⟩ := h
  cases h'
  have decided : Booked s (u.revokeGrants o'.runId []) :=
    (Booked.updateOperation hupdate).trans (.of_eq rfl rfl rfl rfl)
  dsimp only at h
  split at h
  · refine decided.trans (Booked.trans ?_ (.transition h))
    exact .of_eq rfl rfl rfl rfl
  split at h
  · exact decided.trans (.transition h)
  · cases h
    exact decided

/-! ## Operations -/

theorem Booked.prepareOperation {ctx : ExecutionContext} {row : Store.PreparedRow}
    {fresh oid : OperationId} {o : Operation}
    (h : s.prepareOperation ctx row fresh now = .ok (oid, o, s')) : Booked s s' := by
  obtain ⟨-, ⟨-, rfl, -⟩ | ⟨-, -, -, operations, -, rfl⟩⟩ := Store.prepareOperation_eq_ok h
  · exact .refl
  · refine Booked.trans ?_ (.event rfl (by simp))
    exact .of_eq rfl rfl rfl rfl

theorem Booked.finishOperation {ctx : ExecutionContext} {oid : OperationId} {result : ToolResult}
    (h : finishOperation s ctx oid result now = .ok s') : Booked s s' := by
  simp only [MiHarness.finishOperation, bind_eq_ok] at h
  obtain ⟨o, -, t, hupdate, h⟩ := h
  cases h
  refine (Booked.updateOperation hupdate).trans (.event ?_ ?_)
  · split <;> rfl
  · split <;> simp

theorem Booked.startOperation {ctx : ExecutionContext} {oid : OperationId} {o : Operation}
    {gid : GrantId} {binding : ApprovalBinding} {policyRevision : Nat}
    (h : startOperation s ctx oid o gid binding policyRevision now = .ok s') : Booked s s' := by
  simp only [MiHarness.startOperation, bind_eq_ok] at h
  obtain ⟨t, hgrant, u, hupdate, v, hconsume, ledger, hreserve, h⟩ := h
  cases h
  obtain ⟨grants, -, rfl⟩ := Store.addGrant_eq_ok hgrant
  obtain ⟨-, grant, current, -, -, -, -, -, rfl⟩ := Store.consumeGrant_eq_ok hconsume
  have granted : Booked s { s with grants } := .of_eq rfl rfl rfl rfl
  refine ((granted.trans (.updateOperation hupdate)).trans (Booked.trans ?_
    (.call (.reserve ctx.rootRunId (.tool oid) (Items.single .toolCalls 1)) ?_ hreserve))).trans (.event rfl (by simp))
  · exact .of_eq rfl rfl rfl rfl
  · refine ⟨fun child same => (by cases same), fun holds => ?_⟩
    rw [Items.amount_single, Amount.single, Finmap.mem_singleton] at holds
    cases holds

theorem Booked.prepareInteraction {ctx : ExecutionContext} {request : Store.InteractionRequest}
    {fresh iid : InteractionId} {i : Interaction}
    (h : s.prepareInteraction ctx request fresh now = .ok (iid, i, s')) : Booked s s' := by
  obtain ⟨-, ⟨-, -, -, rfl⟩ | ⟨-, -, -, interactions, -, rfl⟩⟩ := Store.prepareInteraction_eq_ok h
  · exact .refl
  · exact .of_eq rfl rfl rfl rfl

/-! ## Actions -/

/-- The actions that create a run. -/
def Action.creates : Action → Prop
  | .submit .. | .delegate .. => True
  | _ => False

instance (a : Action) : Decidable a.creates := by
  cases a <;> unfold Action.creates <;> infer_instance

/-- Outside `delegate`, reservations are made by the gateway for tools and by the budget gate for
models, neither in the dimension of children. -/
def Action.bills : Action → Prop
  | .reserve account key items => Ledger.Call.forTools (.reserve account key items)
  | .settleReservation key actual => Ledger.Call.forTools (.settle key actual)
  | _ => True

theorem perform_booked {host : Host} {a : Action} (bills : a.bills) (old : ¬a.creates)
    (h : a.perform host s now = .ok s') : Booked s s' := by
  cases a with
  | submit owner session request fresh => exact absurd trivial old
  | delegate ctx key request allowed ids => exact absurd trivial old
  | tick _ =>
      cases h
      exact .refl
  | addBranch fresh row =>
      obtain ⟨branches, -, rfl, -⟩ := Store.addBranch_eq_ok h
      exact .of_eq rfl rfl rfl rfl
  | setMaintenance enabled =>
      cases h
      exact .of_eq rfl rfl rfl rfl
  | claim process fresh =>
      obtain ⟨⟨taken, t⟩, hclaim, h⟩ := bind_eq_ok.mp h
      cases h
      exact .claim hclaim
  | heartbeat ctx =>
      obtain ⟨-, rfl⟩ := Store.heartbeat_eq_ok h
      exact .of_eq rfl rfl rfl rfl
  | prepareWait ctx key children mode fresh =>
      obtain ⟨⟨wid, w, t⟩, hwait, h⟩ := bind_eq_ok.mp h
      cases h
      obtain ⟨-, -, hadd⟩ := bind_eq_ok.mp hwait
      rcases Store.addWait_eq_ok hadd with rfl | ⟨-, waits, -, rfl⟩
      · exact .refl
      · exact .of_eq rfl rfl rfl rfl
  | steer owner rid text expected fresh =>
      simp only [Action.perform, steer, bind_eq_ok] at h
      obtain ⟨run, -, _, -, _, -, h⟩ := h
      obtain ⟨inputCommands, rfl⟩ := Store.addInputCommand_eq_ok h
      exact .of_eq rfl rfl rfl rfl
  | ackInputCommands ctx ids =>
      obtain ⟨-, row, -, ⟨-, rfl⟩ | ⟨-, rfl⟩⟩ := Store.ackInputCommands_eq_ok h
      · exact .of_eq rfl rfl rfl rfl
      · refine (Booked.patched ctx.runId { inputRevision := some ctx.inputRevision } rfl).trans ?_
        exact .of_eq rfl rfl rfl rfl
  | refreshWaits => exact .refreshWaits h
  | respond owner iid request => exact .respond h
  | expireInteractions => exact .expireInteractions h
  | settle machine ctx outcome => exact .settle h
  | cancel owner root reason => exact .cancel h
  | finishIdle => exact .finishIdle h
  | recoverRun machine rid =>
      obtain ⟨listed, -, h⟩ := bind_eq_ok.mp h
      split at h
      · exact .recoverRun h
      · cases h
        exact .refl
  | reconcile machine owner oid request => exact .reconcile h
  | prepareOperation ctx row fresh =>
      obtain ⟨⟨oid, o, t⟩, hprepare, h⟩ := bind_eq_ok.mp h
      cases h
      exact .prepareOperation hprepare
  | finishOperation ctx oid result => exact .finishOperation h
  | startOperation ctx oid o grant binding policyRevision => exact .startOperation h
  | annotateOperation ctx oid a =>
      obtain ⟨o, -, h⟩ := bind_eq_ok.mp h
      exact .updateOperation h
  | suspendExchange ctx oid o pending fresh =>
      obtain ⟨⟨iid, t⟩, hsuspend, h⟩ := bind_eq_ok.mp h
      cases h
      simp only [MiHarness.suspendExchange, bind_eq_ok] at hsuspend
      obtain ⟨_, -, current, -, _, -, ⟨iid', i, u⟩, hprepare, v, hupdate, h⟩ := hsuspend
      cases h
      exact (Booked.prepareInteraction hprepare).trans (.updateOperation hupdate)
  | sendExchange ctx oid o c =>
      simp only [Action.perform, MiHarness.sendExchange, bind_eq_ok] at h
      obtain ⟨current, -, _, -, h⟩ := h
      exact .updateOperation h
  | prepareInteraction ctx request fresh =>
      obtain ⟨⟨iid, i, t⟩, hprepare, h⟩ := bind_eq_ok.mp h
      cases h
      exact .prepareInteraction hprepare
  | reserve account key items =>
      obtain ⟨ledger, hreserve, h⟩ := bind_eq_ok.mp h
      cases h
      exact .call (.reserve account key items) bills hreserve
  | settleReservation key actual =>
      obtain ⟨ledger, hsettle, h⟩ := bind_eq_ok.mp h
      cases h
      exact .call (.settle key actual) bills hsettle

end MiHarness

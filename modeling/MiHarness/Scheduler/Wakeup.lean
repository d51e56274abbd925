import MiHarness.Scheduler.Children
import MiHarness.Scheduler.Resume

/-!
# No run sleeps through its answers

A resolution and the wake-up of the run that waits for it are one transaction.  `AwakeBut` is
the invariant between the two: nobody waits for what has been resolved, except the runs whose
answers the transaction has just filed.  `wake` ends the exception.

The interrupts that a run waits for and that nothing has resolved are backed by an open
interaction or by a bound wait, if a waiting outcome names what the run itself has prepared.
-/

namespace MiHarness

open Library

variable {D : Discipline} {now : Time} {s s' t : Store} {host : Host}

/-- The run waits for the user or for its children. -/
def RunStatus.waits (status : RunStatus) : Prop :=
  status = .waitingUser ∨ status = .waitingChildren

/-! ## Resolutions -/

theorem mem_resolutions {rid : RunId} {id : InterruptId} :
    (resolutions s rid).any (fun e => e.1 = id) = true ↔
      (∃ e ∈ s.reviewResolutions rid, e.1 = id) ∨
      (∃ wid w, s.waits.get? wid = some w ∧ w.parentId = rid ∧ w.interruptId = some id ∧
        w.resolution.isSome) ∨
      ∃ iid i, s.interactions.get? iid = some i ∧ i.runId = rid ∧ i.interruptId = some id ∧
        i.resolution.isSome := by
  simp only [resolutions, List.any_append, Bool.or_eq_true, List.any_eq_true, decide_eq_true_eq,
    List.mem_filterMap, or_assoc]
  refine or_congr Iff.rfl (or_congr ⟨?_, ?_⟩ ⟨?_, ?_⟩)
  · rintro ⟨e, ⟨⟨wid, w⟩, hmem, hw⟩, rfl⟩
    obtain ⟨hget, owner⟩ := Table.mem_select.mp hmem
    split at hw
    · rename_i id r named resolved
      cases hw
      exact ⟨wid, w, hget, of_decide_eq_true owner, named, by rw [resolved]; rfl⟩
    · cases hw
  · rintro ⟨wid, w, hget, owner, named, resolved⟩
    obtain ⟨r, hr⟩ := Option.isSome_iff_exists.mp resolved
    refine ⟨(id, r), ⟨(wid, w), Table.mem_select.mpr ⟨hget, decide_eq_true owner⟩, ?_⟩, rfl⟩
    simp only [named, hr]
  · rintro ⟨e, ⟨⟨iid, i⟩, hmem, hi⟩, rfl⟩
    obtain ⟨hget, owner⟩ := Store.mem_interactionsOf.mp hmem
    split at hi
    · rename_i id r named resolved
      cases hi
      exact ⟨iid, i, hget, owner, named, by rw [resolved]; rfl⟩
    · cases hi
  · rintro ⟨iid, i, hget, owner, named, resolved⟩
    obtain ⟨r, hr⟩ := Option.isSome_iff_exists.mp resolved
    refine ⟨(id, r), ⟨(iid, i), Store.mem_interactionsOf.mpr ⟨hget, owner⟩, ?_⟩, rfl⟩
    simp only [named, hr]

/-- The row of a run that waits is as it was, unless its own attempt has just ended. -/
theorem RunEffect.waits {rid : RunId} {r' : Run} (e : RunEffect D now s s' rid r')
    (waits : r'.status.waits) : s.runs.get? rid = some r' ∨ D.scope.answers rid := by
  cases e with
  | kept hr => exact .inl hr
  | added _ fresh => rw [fresh.queued] at waits; simp [RunStatus.waits] at waits
  | claimed | released => simp [RunStatus.waits] at waits
  | finished _ _ ends => rcases waits with h | h <;> cases h <;> cases ends
  | moved hr m =>
      cases m with
      | suspended _ _ _ _ _ _ answers => exact .inr answers
      | checkpointed _ live => rcases waits with h | h <;> rw [h] at live <;> simp at live
      | inputAdvanced _ live => rcases waits with h | h <;> rw [h] at live <;> cases live
      | reviewed | woken | lost | requeued | cancelling => simp [RunStatus.waits] at waits

/-- Nothing is resolved for a run that waits outside the scope of a write. -/
theorem Write.resolutions_stay (w : Write D now s s') {rid : RunId} {r : Run}
    (hr : s.runs.get? rid = some r) (hr' : s'.runs.get? rid = some r) (waits : r.status.waits)
    (apart : ¬D.scope.answers rid) {id : InterruptId}
    (h : (resolutions s' rid).any (fun e => e.1 = id) = true) :
    (resolutions s rid).any (fun e => e.1 = id) = true := by
  rw [mem_resolutions] at h ⊢
  rcases h with ⟨e, he, same⟩ | ⟨wid, row, hrow, owner, named, resolved⟩ |
    ⟨iid, i, hi, owner, named, resolved⟩
  · rcases w.reviewResolutions rid with kept | ⟨r', hr', review, -⟩
    · exact .inl ⟨e, kept ▸ he, same⟩
    · cases hr.symm.trans hr'
      rcases waits with h | h <;> rw [review] at h <;> cases h
  · refine .inr (.inl ?_)
    cases w.waitEffect hrow with
    | kept before => exact ⟨wid, row, before, owner, named, resolved⟩
    | added _ _ unresolved => rw [unresolved] at resolved; cases resolved
    | moved before m answers =>
        refine absurd ?_ apart
        cases m with
        | bound => exact owner ▸ answers
        | resolved => exact owner ▸ answers
  · refine .inr (.inr ?_)
    cases w.interactionEffect hi with
    | kept before => exact ⟨iid, i, before, owner, named, resolved⟩
    | added _ _ _ _ unresolved => rw [unresolved] at resolved; cases resolved
    | moved before m answers =>
        refine absurd ?_ apart
        cases m with
        | bound => exact owner ▸ answers
        | resolved => exact owner ▸ answers
    | closed _ _ _ why =>
        subst owner
        rcases why with answers | ⟨r', hended, ended⟩
        · exact absurd answers apart
        · cases hr'.symm.trans hended
          rcases waits with h | h <;> rw [h] at ended <;> cases ended

/-! ## Nobody sleeps -/

/-- No run outside `P` waits for what has been resolved. -/
def Store.AwakeBut (P : RunId → Prop) (s : Store) : Prop :=
  ∀ rid r, ¬P rid → s.runs.get? rid = some r → r.status.waits → ready s rid r = false

/-- No run waits for what has been resolved. -/
abbrev Store.Awake (s : Store) : Prop := s.AwakeBut fun _ => False

/-- The discipline of a step that raises and answers the barriers of the runs in `P` only. -/
def Discipline.answering (P : RunId → Prop) : Discipline := { scope := { answers := P } }

theorem Store.Awake.but (awake : s.Awake) (P : RunId → Prop) : s.AwakeBut P :=
  fun rid r _ => awake rid r not_false

theorem Store.AwakeBut.write {P : RunId → Prop} (awake : s.AwakeBut P)
    (w : Write (.answering P) now s s') : s'.AwakeBut P := by
  intro rid r apart hr' waits
  have hr : s.runs.get? rid = some r :=
    ((w.runEffect hr').waits waits).resolve_right apart
  have before : ready s rid r = false := awake rid r apart hr waits
  rw [← Bool.not_eq_true] at before ⊢
  intro all
  refine before (List.all_eq_true.mpr fun id hid => ?_)
  exact w.resolutions_stay hr hr' waits apart (List.all_eq_true.mp all id hid)

theorem Store.AwakeBut.writes {P : RunId → Prop} (awake : s.AwakeBut P)
    (w : Writes (.answering P) now s s') : s'.AwakeBut P :=
  w.invariant (I := Store.AwakeBut P) (fun _ _ awake w => awake.write w) awake

theorem Writes.base (w : Writes D now s s') (base : s.Base) : s'.Base :=
  w.invariant (I := Store.Base) (fun _ _ base w => base.write w) base

/-- The run that was answered is awake after `wake`. -/
theorem Store.AwakeBut.wake {rid : RunId} (base : s.Base) (awake : s.AwakeBut (· = rid))
    (h : MiHarness.wake s rid now = .ok s') : s'.Awake := by
  have others := awake.writes (wake_writes h)
  intro rid' r' _ hr' waits
  by_cases here : rid' = rid
  · subst here
    simp only [MiHarness.wake, bind_eq_ok, Store.run_eq_ok] at h
    obtain ⟨r, hr, h⟩ := h
    split at h
    · obtain ⟨row, hrow, rfl⟩ : ∃ row, s.runs.get? rid' = some row ∧
          RunPatch.apply { status := some .queued } row = r' := by
        rw [transition_runs h, Table.get?_modify_self] at hr'
        exact Option.map_eq_some_iff.mp hr'
      simp [RunPatch.apply, RunStatus.waits] at waits
    · rename_i asleep
      cases h
      cases hr.symm.trans hr'
      have goes : r'.cancelRequested = false := by
        cases flag : r'.cancelRequested with
        | false => rfl
        | true =>
            rcases waits with h | h <;>
              rcases base.flagged rid' r' hr flag with e | e <;> rw [h] at e <;> cases e
      rw [← Bool.not_eq_true]
      exact fun all => asleep ⟨waits, goes, all⟩
  · exact others rid' r' here hr' waits

/-- The writes for one run and its wake-up. -/
theorem Store.Awake.answer {rid : RunId} (base : s.Base) (awake : s.Awake)
    (w : Writes (.answering (· = rid)) now s t) (h : wake t rid now = .ok s') :
    s'.Base ∧ s'.Awake :=
  have base' := w.base base
  ⟨(wake_writes (D := {}) h).base base', ((awake.but _).writes w).wake base' h⟩

/-! ## The transactions that raise or answer a barrier -/

theorem refreshWait_awake {wid : WaitId} {wait : Wait} (base : s.Base) (awake : s.Awake)
    (current : s.waits.get? wid = some wait) (h : refreshWait s wid wait now = .ok s') :
    s'.Base ∧ s'.Awake := by
  unfold refreshWait at h
  split at h
  · cases h
    exact ⟨base, awake⟩
  rename_i pending
  obtain ⟨children, -, h⟩ := bind_eq_ok.mp h
  split at h
  · simp only [bind_eq_ok] at h
    obtain ⟨t, hupdate, hwake⟩ := h
    obtain ⟨-, rfl⟩ := Store.updateWait_eq_ok hupdate
    have unresolved : wait.resolution = none := by
      simpa using (not_or.mp pending).2
    refine awake.answer base ?_ hwake
    exact (Write.waitMoved current (.resolved _ unresolved) rfl False.elim).writes
  · cases h
    exact ⟨base, awake⟩

/-- Refreshing keeps the rows of the waits it has not reached. -/
theorem refreshWaitsOf_awake {parent : Option RunId} (base : s.Base) (awake : s.Awake)
    (h : refreshWaitsOf s parent now = .ok s') : s'.Base ∧ s'.Awake := by
  refine foldlM_keyed (R := fun (t t' : Store) => t.Base ∧ t.Awake → t'.Base ∧ t'.Awake)
    (P := fun t wid wait => t.waits.get? wid = some wait) (fun _ h => h)
    (fun _ _ _ h k before => k (h before)) (Table.nodup_select _ _) h ?_ ?_ ⟨base, awake⟩
  · exact fun e he => (Table.mem_select.mp he).1
  · intro e _ t t' _ current hturn
    refine ⟨fun before => refreshWait_awake before.1 before.2 current hturn, ?_⟩
    have others := (refreshWait_writes (D := {}) current trivial hturn).2
    exact fun e' _ hne hP => (others e'.1 hne).trans hP

theorem refreshWaits_awake (base : s.Base) (awake : s.Awake) (h : refreshWaits s now = .ok s') :
    s'.Awake := by
  simp only [refreshWaits, bind_eq_ok] at h
  obtain ⟨t, hall, h⟩ := h
  refine (foldlM_closed (R := fun (t t' : Store) => t.Base ∧ t.Awake → t'.Base ∧ t'.Awake) (fun _ h => h)
    (fun _ _ _ h k before => k (h before)) h (fun e _ u u' _ hturn before => ?_)
    (refreshWaitsOf_awake base awake hall)).2
  obtain ⟨v, hof, hturn⟩ := bind_eq_ok.mp hturn
  cases hturn
  obtain ⟨base, awake⟩ := refreshWaitsOf_awake before.1 before.2 hof
  have noticed : Write (.answering fun _ => False) now v { v with
      outbox := v.outbox.modify e.1 fun n => { n with delivered := true } } :=
    .books v.ledger v.events _ v.inputCommands v.maintenance
  exact ⟨base.write noticed, awake.write noticed⟩

theorem respond_awake {owner : OwnerId} {iid : InteractionId} {request : RespondRequest}
    (base : s.Base) (awake : s.Awake) (h : respond host s owner iid request now = .ok s') :
    s'.Awake := by
  simp only [respond, bind_eq_ok, require_eq_ok, Store.interaction_eq_ok, exists_const] at h
  obtain ⟨i, hi, run, -, -, ⟨isOpen, -⟩, -, -, -, t, hupdate, hwake⟩ := h
  obtain rfl := Store.updateInteraction_eq_ok hupdate
  refine (awake.answer base ?_ hwake).2
  exact (Write.interactionMoved hi (.resolved _ isOpen rfl) rfl).writes.then (.event _ _ _ _)

theorem expireInteractions_awake (base : s.Base) (awake : s.Awake)
    (h : expireInteractions s now = .ok s') : s'.Awake := by
  refine (foldlM_closed (R := fun (t t' : Store) => t.Base ∧ t.Awake → t'.Base ∧ t'.Awake) (fun _ h => h)
    (fun _ _ _ h k before => k (h before)) h (fun e _ u u' _ hturn before => ?_) ⟨base, awake⟩).2
  obtain ⟨v, hinner, hwake⟩ := bind_eq_ok.mp hturn
  exact before.2.answer before.1 (expireInteractionsOf_writes rfl hinner) hwake

/-- The run whose attempt ends is looked at once more before it sleeps. -/
theorem settle_awake {readable : ArtifactId → OwnerId → Bool} {ctx : ExecutionContext}
    {outcome : RuntimeOutcome} (base : s.Base) (awake : s.Awake)
    (own : s.OwnReviews ctx.runId outcome.interruptRefs)
    (names : outcome.kind = .waiting → s.Running ctx.runId →
      s.Names ctx.runId outcome.interruptRefs)
    (h : settle s readable ctx outcome now = .ok s') : s'.Awake := by
  have meets : ∀ {P : RunId → Prop}, SettleMeets (.answering P) s ctx outcome :=
    ⟨False.elim, False.elim, False.elim, False.elim⟩
  by_cases sleeps : outcome.kind = .waiting ∧ s.Running ctx.runId
  · obtain ⟨v, writes, ⟨-, -, hwake⟩ | ⟨other, -⟩⟩ :=
      settle_eq_ok (D := .answering (· = ctx.runId)) own trivial (fun _ => meets)
        (fun waiting running => ⟨rfl, (names waiting running).ownWaits rfl⟩) h
    · exact (awake.answer base writes hwake).2
    · exact absurd sleeps other
  · obtain ⟨v, writes, ⟨waiting, running, -⟩ | ⟨-, rfl⟩⟩ :=
      settle_eq_ok (D := .answering fun _ => False) own trivial (fun _ => meets)
        (fun waiting running => absurd ⟨waiting, running⟩ sleeps) h
    · exact absurd ⟨waiting, running⟩ sleeps
    · exact awake.writes writes

/-- A run whose turn it is in `cancel` does not wait any more. -/
theorem cancel_awake {owner : OwnerId} {root : RunId} {reason : String} (base : s.Base)
    (awake : s.Awake) (h : cancel s owner root reason now = .ok s') : s'.Awake := by
  obtain ⟨_, -, h⟩ := bind_eq_ok.mp h
  refine foldlM_keyed (R := fun (t t' : Store) => t.Awake → t'.Awake)
    (P := fun t rid run => t.runs.get? rid = some run) (fun _ h => h)
    (fun _ _ _ h k before => k (h before)) (base.tree.descendants_nodup root) h ?_ ?_ awake
  · exact fun e he => (Store.mem_descendants.mp he).2
  · intro e _ t t' _ current hturn
    obtain ⟨others, -⟩ := cancelRun_frame hturn
    refine ⟨fun awake rid r _ hr waits => ?_, fun e' _ hne hP => (others e'.1 hne).trans hP⟩
    by_cases here : rid = e.1
    · subst here
      obtain ⟨r', hr', stopped, -⟩ := cancelRun_status current hturn
      cases hr.symm.trans hr'
      rcases waits with h | h <;> rw [RunStatus.stopping, h] at stopped <;>
        simp [RunStatus.terminal] at stopped
    · have writes : Writes (.answering (· = e.1)) now t t' :=
        cancelRun_writes current False.elim not_false rfl hturn
      exact (awake.but _).writes writes rid r here hr waits

/-! ## What a run waits for -/

/-- The rows that a waiting run waits for are bound to its interrupts. -/
def Store.WaitsSourced (s : Store) : Prop :=
  ∀ rid r, s.runs.get? rid = some r → r.status.waits → ∀ id ∈ r.requiredInterrupts, s.Sourced rid id

/-- A row stays bound to its interrupt while the run waits. -/
theorem Store.Sourced.write (hD : D.sourced) {rid : RunId} {id : InterruptId}
    (idle : ¬s.Running rid) (sourced : s.Sourced rid id) (w : Write D now s s') :
    s'.Sourced rid id := by
  unfold Sourced at sourced ⊢
  split at sourced
  · obtain ⟨i, hi, owner, named, state⟩ := sourced
    obtain ⟨i', hi'⟩ := w.interaction_stays hi
    refine ⟨i', hi', ?_⟩
    cases w.interactionEffect hi' with
    | kept before =>
        cases hi.symm.trans before
        exact ⟨owner, named, state⟩
    | added absent => cases hi.symm.trans absent
    | moved before m =>
        cases hi.symm.trans before
        cases m with
        | bound _ _ running => exact absurd (owner ▸ running) idle
        | resolved => exact ⟨owner, named, .inr rfl⟩
    | closed _ before =>
        cases hi.symm.trans before
        exact ⟨owner, named, .inr rfl⟩
  · obtain ⟨row, hrow, owner, named, bound⟩ := sourced
    obtain ⟨row', hrow'⟩ := w.wait_stays hrow
    refine ⟨row', hrow', ?_⟩
    cases w.waitEffect hrow' with
    | kept before =>
        cases hrow.symm.trans before
        exact ⟨owner, named, bound⟩
    | added absent => cases hrow.symm.trans absent
    | moved before m _ running =>
        cases hrow.symm.trans before
        have same : row'.interruptId = row.interruptId :=
          by_contra fun changed => idle (owner ▸ running hD changed)
        cases m with
        | bound => exact ⟨owner, same.trans named, rfl⟩
        | resolved => exact ⟨owner, named, bound⟩
  · trivial

theorem RunStatus.waits.not_running {rid : RunId} {r : Run} (waits : r.status.waits)
    (hr : s.runs.get? rid = some r) : ¬s.Running rid := by
  rintro ⟨r', hr', running⟩
  cases hr.symm.trans hr'
  rcases waits with h | h <;> rw [running] at h <;> cases h

theorem Store.WaitsSourced.write (hD : D.sourced) (sourced : s.WaitsSourced)
    (w : Write D now s s') : s'.WaitsSourced := by
  intro rid r' hr' waits id hid
  have kept : ∀ r, s.runs.get? rid = some r → r.status.waits → id ∈ r.requiredInterrupts →
      s'.Sourced rid id := fun r hr before hid =>
    (sourced rid r hr before id hid).write hD (before.not_running hr) w
  cases w.runEffect hr' with
  | kept hr => exact kept _ hr waits hid
  | added _ fresh => rw [fresh.queued] at waits; simp [RunStatus.waits] at waits
  | claimed | released => simp [RunStatus.waits] at waits
  | finished _ _ ends => rcases waits with h | h <;> cases h <;> cases ends
  | moved hr m _ interactions rows =>
      cases m with
      | suspended _ _ _ _ _ _ _ bound =>
          have before := bound hD id hid
          unfold Sourced at before ⊢
          rw [interactions, rows]
          exact before
      | checkpointed => exact kept _ hr waits hid
      | inputAdvanced => exact kept _ hr waits hid
      | reviewed | woken | lost | requeued | cancelling => simp [RunStatus.waits] at waits

/-! ## Runs of the system -/

/-- A waiting outcome names interactions that wait to be bound and waits of its run, each of them
once: the calls of one message have different identifiers. -/
def NamesOwn (w : World) : Action → Prop
  | .settle _ ctx outcome => outcome.kind = .waiting → w.store.Running ctx.runId →
      w.store.Names ctx.runId outcome.interruptRefs
  | _ => True

/-- The discipline under which a run waits for its own rows. -/
def Discipline.sourcing : Discipline := { sourced := True }

theorem NamesOwn.meets {w : World} {a : Action} (h : NamesOwn w a) :
    Discipline.sourcing.Meets host w.store w.now a where
  scope := .all ..
  cancel _ _ _ _ := ⟨not_false, False.elim⟩
  settle _ _ _ same running := by
    subst same
    exact ⟨False.elim, False.elim, False.elim, fun _ waiting => h waiting running⟩
  reconcile _ _ _ _ _ := False.elim
  delegate _ _ _ _ _ _ := False.elim

theorem Discipline.meets_answering {P : RunId → Prop} {a : Action} (quiet : a.answers = false) :
    (Discipline.answering P).Meets host s now a where
  scope := { Scope.Covers.all host s now a with
    answers := fun loud => by
      rw [quiet] at loud
      cases loud }
  cancel _ _ _ _ := ⟨not_false, False.elim⟩
  settle _ _ _ _ _ := ⟨False.elim, False.elim, False.elim, False.elim⟩
  reconcile _ _ _ _ _ := False.elim
  delegate _ _ _ _ _ _ := False.elim

/-- A step of the system lets no run sleep. -/
theorem step_awake {w w' : World} {a : Action} (base : w.store.Base) (awake : w.store.Awake)
    (names : NamesOwn w a) (step : (system host).step w a w') : w'.store.Awake := by
  rcases World.next_perform step with ⟨now, rfl, -, rfl⟩ | ⟨admissible, store, hperform, rfl⟩
  · exact awake
  cases loud : a.answers with
  | false =>
      exact awake.writes
        (perform_writes base.queuedGo base.tree admissible (Discipline.meets_answering loud) hperform)
  | true =>
      cases a with
      | refreshWaits => exact refreshWaits_awake base awake hperform
      | respond => exact respond_awake base awake hperform
      | expireInteractions => exact expireInteractions_awake base awake hperform
      | cancel => exact cancel_awake base awake hperform
      | settle machine ctx outcome =>
          refine settle_awake base awake (fun ref href oid o hrequest ho => ?_) names hperform
          have own := List.all_eq_true.mp admissible ref href
          simpa [hrequest, ho] using own
      | _ => cases loud

/-- An interrupt without a resolution is backed by an open interaction or an unresolved wait that
is bound to it. -/
def Store.Backed (s : Store) (rid : RunId) (id : InterruptId) : Prop :=
  match id.request with
  | .user iid => ∃ i, s.interactions.get? iid = some i ∧ i.runId = rid ∧ i.interruptId = some id ∧
      i.status = .open
  | .children wid => ∃ w, s.waits.get? wid = some w ∧ w.parentId = rid ∧ w.interruptId = some id ∧
      w.checkpointRef.isSome ∧ w.resolution = none
  | .review _ => False

theorem Store.Sourced.backed {rid : RunId} {id : InterruptId} (sourced : s.Sourced rid id)
    (plain : ∀ oid, id.request ≠ .review oid)
    (unresolved : (resolutions s rid).any (fun e => e.1 = id) = false) : s.Backed rid id := by
  rw [← Bool.not_eq_true, mem_resolutions, not_or, not_or] at unresolved
  obtain ⟨-, waits, interactions⟩ := unresolved
  rw [Sourced] at sourced
  rw [Backed]
  cases hrequest : id.request with
  | user iid =>
    rw [hrequest] at sourced
    obtain ⟨i, hi, owner, named, isOpen | resolved⟩ := sourced
    · exact ⟨i, hi, owner, named, isOpen⟩
    · exact absurd ⟨iid, i, hi, owner, named, resolved⟩ interactions
  | children wid =>
    rw [hrequest] at sourced
    obtain ⟨row, hrow, owner, named, bound⟩ := sourced
    refine ⟨row, hrow, owner, named, bound, ?_⟩
    by_contra resolved
    exact waits ⟨wid, row, hrow, owner, named, Option.isSome_iff_ne_none.mpr resolved⟩
  | review oid => exact absurd hrequest (plain oid)

/-- In every run whose waiting outcomes name what their runs have prepared, a run that waits is
not ready, and what it still waits for is open. -/
theorem waiting_backed {w : World} (reach : ((system host).restrict NamesOwn).Reachable w)
    {rid : RunId} {r : Run} (hr : w.store.runs.get? rid = some r) (waits : r.status.waits) :
    ready w.store rid r = false ∧ ∀ id ∈ r.requiredInterrupts,
      (resolutions w.store rid).any (fun e => e.1 = id) = false → w.store.Backed rid id := by
  have awake : w.store.Awake := by
    refine reach.invariant (I := fun w => w.store.Awake) (fun w start => ?_)
      fun w a w' hw awake step => ?_
    · rw [show w.store = .initial from start]
      exact fun _ _ _ h => by cases h
    · exact step_awake (reachable_base hw.of_restrict) awake step.1 step.2
  have initial : Store.initial.WaitsSourced ∧ Store.initial.WaitsPlain :=
    ⟨fun _ _ h => (by cases h), fun _ _ h => (by cases h)⟩
  have sourced : w.store.WaitsSourced ∧ w.store.WaitsPlain :=
    reachable_of_writes (D := Discipline.sourcing) (I := fun s => s.WaitsSourced ∧ s.WaitsPlain) initial
      (fun _ _ _ _ met => NamesOwn.meets met)
      (fun _ _ _ _ h wr => ⟨h.1.write (D := Discipline.sourcing) trivial wr, h.2.write wr⟩) reach
  refine ⟨awake rid r not_false hr waits, fun id hid unresolved => ?_⟩
  exact (sourced.1 rid r hr waits id hid).backed (sourced.2 rid r hr waits id hid) unresolved

namespace Sample

/-- Run `10` asks the user and waits for the run it delegated to. -/
def asked : List Action := delegated ++
  [.prepareOperation (context 20 1) ⟨1, 2, .requestInput, "1", "ask", "ask", "ask"⟩ 100,
    .prepareInteraction (context 20 1)
      { key := .input 100, kind := .userInput, prompt := "", responseSchema := "{}"
        operationId := some 100, expiresAt := none } 40,
    .prepareWait (context 20 1) 101 [11] .any 50]

/-- The end of the attempt that waits for both. -/
def askedBoth : RuntimeOutcome :=
  { kind := .waiting, runId := 10, inputRevision := 2, checkpointRef := some checkpoint
    interruptRefs := [⟨⟨5, 1, 0, .user 40⟩, checkpoint⟩, ⟨⟨5, 1, 1, .children 50⟩, checkpoint⟩] }

end Sample

/-- The user has answered, and the run still waits for its child. -/
theorem waiting_backed_child : ∃ (w : World) (r : Run), w.store.runs.get? 10 = some r ∧
    r.status = .waitingUser ∧ ready w.store 10 r = false ∧
    ⟨5, 1, 1, .children 50⟩ ∈ r.requiredInterrupts ∧ w.store.Backed 10 ⟨5, 1, 1, .children 50⟩ := by
  let next := World.next Sample.host
  have run : (System.runs next Sample.start Sample.asked).any (fun w =>
      ((w.store.interactions.get? 40).any fun i => decide (i.status = .pendingBinding)) &&
      ((w.store.waits.get? 50).any fun wait => decide (wait.parentId = 10)) &&
      (next w (.settle Sample.machine (Sample.context 20 1) Sample.askedBoth)).any fun w₁ =>
        (next w₁ (.respond 1 40 ⟨2, ⟨"answer", none⟩, none⟩)).any fun w₂ =>
          ((w₂.store.runs.get? 10).any fun r => decide (r.status = .waitingUser) &&
            decide (⟨5, 1, 1, .children 50⟩ ∈ r.requiredInterrupts)) &&
          !(resolutions w₂.store 10).any fun e => e.1 = ⟨5, 1, 1, .children 50⟩) = true := by decide
  simp only [Option.any_eq_true, Bool.and_eq_true, Bool.not_eq_true', decide_eq_true_eq] at run
  obtain ⟨w, hw, ⟨⟨i, hi, pending⟩, wait, hwait, owner⟩, w₁, h₁, w₂, h₂, ⟨r, hr, status, member⟩,
    unresolved⟩ := run
  have reach : ((system Sample.host).restrict NamesOwn).Reachable w := by
    refine Sample.reachableWithin (fun a ha w => ?_) hw
    simp only [Sample.asked, Sample.delegated, Sample.submitted, List.cons_append, List.nil_append,
      List.mem_cons, List.not_mem_nil, or_false] at ha
    rcases ha with rfl | rfl | rfl | rfl | rfl | rfl | rfl <;> trivial
  have names : NamesOwn w (.settle Sample.machine (Sample.context 20 1) Sample.askedBoth) := by
    refine fun _ _ => ⟨fun ref href iid hrequest => ?_, fun ref href wid hrequest => ?_, by decide⟩
    all_goals
      simp only [Sample.askedBoth, List.mem_cons, List.not_mem_nil, or_false] at href
      rcases href with rfl | rfl <;> cases hrequest
    · exact ⟨i, hi, pending⟩
    · exact ⟨wait, hwait, owner⟩
  have answered : NamesOwn w₁ (.respond 1 40 ⟨2, ⟨"answer", none⟩, none⟩) := trivial
  have reach₂ := (reach.step ⟨names, h₁⟩).step ⟨answered, h₂⟩
  obtain ⟨asleep, backed⟩ := waiting_backed reach₂ hr (.inl status)
  exact ⟨w₂, r, hr, status, asleep, member, backed _ member unresolved⟩

end MiHarness

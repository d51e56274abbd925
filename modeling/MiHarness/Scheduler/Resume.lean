import MiHarness.Scheduler.Terminal

/-!
# Barriers

A run that suspends lists the interrupts it waits for, and goes back to the queue when all of
them are resolved.  `Store.Barrier` says what the rows of interactions, waits and operations
have to do with the lists: an interaction and a wait carry only interrupts that name them, so a
resolution met in either answers the interrupt it is filed under.

A review is different: `reconcile` files an answer for every interrupt of the run, whatever its
source.  In the runs in which the rest of the barrier is answered by then, a run in the queue has
every interrupt it lists resolved by its own source.
-/

namespace MiHarness

open Library

variable {D : Discipline} {now : Time} {s s' : Store} {host : Host}

/-! ## Answers -/

theorem InteractionEffect.pending {iid : InteractionId} {i i' : Interaction}
    (e : InteractionEffect D s s' iid i') (h : s.interactions.get? iid = some i)
    (answered : i.status.pending = false) : i'.status.pending = false := by
  cases e with
  | kept hi => cases h.symm.trans hi; exact answered
  | added absent => cases h.symm.trans absent
  | closed => rfl
  | moved hi m =>
      cases h.symm.trans hi
      cases m with
      | bound _ pending => rw [pending] at answered; cases answered
      | resolved _ _ closes => exact closes

theorem WaitEffect.resolved {wid : WaitId} {w w' : Wait} (e : WaitEffect D s wid w')
    (h : s.waits.get? wid = some w) (answered : w.resolution.isSome) : w'.resolution.isSome := by
  cases e with
  | kept hw => cases h.symm.trans hw; exact answered
  | added absent => cases h.symm.trans absent
  | moved hw m =>
      cases h.symm.trans hw
      cases m with
      | bound => exact answered
      | resolved => rfl

/-- What is answered stays answered. -/
theorem Store.Answered.write {id : InterruptId} (answered : s.Answered id) (w : Write D now s s') :
    s'.Answered id := by
  unfold Answered at answered ⊢
  split at answered
  · obtain ⟨i, hi, closed⟩ := answered
    obtain ⟨i', hi'⟩ := w.interaction_stays hi
    exact ⟨i', hi', (w.interactionEffect hi').pending hi closed⟩
  · obtain ⟨row, hrow, resolved⟩ := answered
    obtain ⟨row', hrow'⟩ := w.wait_stays hrow
    exact ⟨row', hrow', (w.waitEffect hrow').resolved hrow resolved⟩
  · trivial

/-! ## The invariant -/

/-- No run that waits for the user or for children has a review. -/
def Store.WaitsPlain (s : Store) : Prop :=
  ∀ rid r, s.runs.get? rid = some r → (r.status = .waitingUser ∨ r.status = .waitingChildren) →
    ∀ id ∈ r.requiredInterrupts, ∀ oid, id.request ≠ .review oid

/-- How the interrupts that runs wait for are tied to the rows that answer them. -/
structure Store.Barrier (s : Store) : Prop where
  interactions : ∀ iid i id, s.interactions.get? iid = some i → i.interruptId = some id →
    id.request = .user iid
  resolutions : ∀ iid i, s.interactions.get? iid = some i → i.resolution.isSome →
    i.status.pending = false
  waits : ∀ wid w id, s.waits.get? wid = some w → w.interruptId = some id →
    id.request = .children wid
  reviews : ∀ rid, ∀ e ∈ s.reviewResolutions rid, s.Answered e.1
  waiting : s.WaitsPlain
  /-- A run that goes on has been answered. -/
  going : ∀ rid r, s.runs.get? rid = some r →
    (r.status = .queued ∨ r.status = .running ∨ r.status = .recovering) →
    ∀ id ∈ r.requiredInterrupts, s.Answered id
  own : ∀ rid r, s.runs.get? rid = some r → ∀ id ∈ r.requiredInterrupts, ∀ oid,
    id.request = .review oid → ∃ o, s.operations.get? oid = some o ∧ o.runId = rid
  /-- A run in the queue has no unknown operation under review. -/
  decided : ∀ rid r, s.runs.get? rid = some r → r.status = .queued →
    ∀ id ∈ r.requiredInterrupts, ∀ oid o, id.request = .review oid →
      s.operations.get? oid = some o → o.state ≠ .unknown

theorem Store.Barrier.initial : Store.initial.Barrier where
  interactions _ _ _ h := by cases h
  resolutions _ _ h := by cases h
  waits _ _ _ h := by cases h
  reviews _ _ h := by cases h
  waiting _ _ h := by cases h
  going _ _ h := by cases h
  own _ _ h := by cases h
  decided _ _ h := by cases h

/-- The resolutions that make a run ready come from the source they are filed under. -/
theorem Store.Barrier.answered {rid : RunId} {r : Run} (barrier : s.Barrier)
    (h : ready s rid r = true) : ∀ id ∈ r.requiredInterrupts, s.Answered id := by
  intro id hid
  obtain ⟨e, he, same⟩ := List.any_eq_true.mp (List.all_eq_true.mp h id hid)
  obtain rfl := of_decide_eq_true same
  rw [MiHarness.resolutions, List.mem_append, List.mem_append, List.mem_filterMap, List.mem_filterMap] at he
  rcases he with (review | ⟨⟨wid, w⟩, hmem, hw⟩) | ⟨⟨iid, i⟩, hmem, hi⟩
  · exact barrier.reviews rid e review
  · obtain ⟨hget, -⟩ := Table.mem_select.mp hmem
    split at hw
    · rename_i id r named hr
      cases hw
      rw [Answered, barrier.waits wid w id hget named]
      exact ⟨w, hget, by rw [hr]; rfl⟩
    · cases hw
  · obtain ⟨hget, -⟩ := Store.mem_interactionsOf.mp hmem
    split at hi
    · rename_i id r named hr
      cases hi
      rw [Answered, barrier.interactions iid i id hget named]
      exact ⟨i, hget, barrier.resolutions iid i hget (by rw [hr]; rfl)⟩
    · cases hi

/-! ## Writes keep it -/

theorem Write.reviewResolutions (w : Write D now s s') (rid : RunId) :
    s'.reviewResolutions rid = s.reviewResolutions rid ∨
      ∃ r, s.runs.get? rid = some r ∧ r.status = .needsReview ∧
        s'.reviewResolutions rid = reviewed r ∧
        (D.wholeBarrier → ∀ id ∈ r.requiredInterrupts, s.Answered id) := by
  cases w with
  | @released rid' run _ _ _ _ hrun review _ _ _ _ _ _ whole _ =>
      by_cases same : rid = rid'
      · subst same
        exact .inr ⟨run, hrun, review, if_pos rfl, whole⟩
      · exact .inl (if_neg same)
  | _ => exact .inl rfl

/-- A run in the queue was answered, if the barriers of released runs were. -/
theorem RunEffect.going {rid : RunId} {r' : Run} (hD : D.wholeBarrier) (barrier : s.Barrier)
    (e : RunEffect D now s s' rid r')
    (goes : r'.status = .queued ∨ r'.status = .running ∨ r'.status = .recovering) :
    ∀ id ∈ r'.requiredInterrupts, s.Answered id := by
  cases e with
  | kept hr => exact barrier.going rid _ hr goes
  | added _ fresh =>
      rw [fresh.barrier]
      exact fun _ h => absurd h List.not_mem_nil
  | claimed hr queued =>
      have before := barrier.going rid _ hr (.inl queued)
      exact before
  | released _ _ whole => exact whole hD
  | finished _ _ ends => rcases goes with h | h | h <;> cases h <;> cases ends
  | moved hr m =>
      have before := barrier.going rid _ hr
      cases m with
      | checkpointed => exact before goes
      | inputAdvanced _ h => exact before (.inr (.inl h))
      | suspended _ waits => rcases waits with h | h | h <;> cases h <;> simp at goes
      | reviewed => simp at goes
      | woken _ _ all => exact barrier.answered all
      | lost h => exact before (.inr (.inl h))
      | requeued h => exact before (.inr (.inr h))
      | cancelling => simp at goes

/-- The reviews of a run are operations of it. -/
theorem RunEffect.own {rid : RunId} {r' : Run} (barrier : s.Barrier)
    (e : RunEffect D now s s' rid r') :
    ∀ id ∈ r'.requiredInterrupts, ∀ oid, id.request = .review oid →
      ∃ o, s.operations.get? oid = some o ∧ o.runId = rid := by
  cases e with
  | kept hr | claimed hr | released hr | finished hr =>
      have before := barrier.own rid _ hr
      exact before
  | added _ fresh =>
      rw [fresh.barrier]
      exact fun _ h => absurd h List.not_mem_nil
  | moved hr m =>
      have before := barrier.own rid _ hr
      cases m with
      | suspended _ _ _ own => exact own
      | _ => exact before

theorem Store.WaitsPlain.write (plain : s.WaitsPlain) (w : Write D now s s') : s'.WaitsPlain := by
  intro rid r' hr' waits
  cases w.runEffect hr' with
  | kept hr => exact plain rid _ hr waits
  | added _ fresh => rw [fresh.queued] at waits; simp at waits
  | claimed => simp at waits
  | released => simp at waits
  | finished _ _ ends => rcases waits with h | h <;> cases h <;> cases ends
  | moved hr m =>
      have before := plain rid _ hr
      cases m with
      | checkpointed => exact before waits
      | inputAdvanced => exact before waits
      | suspended _ _ plain => exact plain (by rcases waits with h | h <;> cases h <;> simp)
      | reviewed | woken | lost | requeued | cancelling => simp at waits

/-- A run in the queue has no unknown operation under review. -/
theorem RunEffect.decided {rid : RunId} {r' : Run} (barrier : s.Barrier) (stop : s'.AcceptedStop)
    (e : RunEffect D now s s' rid r') (hr' : s'.runs.get? rid = some r') (queued : r'.status = .queued)
    (kept : s.runs.get? rid = some r' → ∀ oid o, s'.operations.get? oid = some o → o.runId = rid →
      o.state = .unknown → s.operations.get? oid = some o)
    {id : InterruptId} (hid : id ∈ r'.requiredInterrupts) {oid : OperationId}
    (hrequest : id.request = .review oid) {o : Operation} (ho : s'.operations.get? oid = some o)
    (owner : o.runId = rid) : o.state ≠ .unknown := by
  intro unknown
  cases e with
  | kept hr =>
      have before := kept hr oid o ho owner unknown
      exact barrier.decided rid _ hr queued id hid oid o hrequest before unknown
  | added _ fresh => rw [fresh.barrier] at hid; cases hid
  | claimed => cases queued
  | released _ _ _ known =>
      obtain ⟨-, r, hr, stopping⟩ := stop oid o ho (known oid o ho owner unknown)
      rw [owner, hr'] at hr
      cases hr
      rcases stopping with h | h <;> cases h
  | finished _ _ ends => cases queued; cases ends
  | moved hr m operations =>
      rw [operations] at ho
      have before := barrier.decided rid _ hr
      have plain := barrier.waiting rid _ hr
      cases m with
      | checkpointed => exact before queued id hid oid o hrequest ho unknown
      | inputAdvanced => exact before queued id hid oid o hrequest ho unknown
      | suspended _ waits => rcases waits with h | h | h <;> cases h <;> cases queued
      | reviewed | lost | cancelling => cases queued
      | woken waits => exact plain waits id hid oid hrequest
      | requeued _ none => exact none ⟨oid, o, ho, owner, unknown⟩

theorem Store.Barrier.write (D : Discipline) (hD : D.wholeBarrier) (stop : s'.AcceptedStop)
    (barrier : s.Barrier) (w : Write D now s s') : s'.Barrier where
  interactions iid i id hi named := by
    cases w.interactionEffect hi with
    | kept before | closed _ before =>
        have names := barrier.interactions iid _ id before
        exact names named
    | added _ _ _ unnamed => rw [unnamed] at named; cases named
    | moved before m =>
        have names := barrier.interactions iid _ id before
        cases m with
        | bound _ _ _ target => cases named; exact target
        | resolved => exact names named
  resolutions iid i hi resolved := by
    cases w.interactionEffect hi with
    | kept before => exact barrier.resolutions iid _ before resolved
    | closed => rfl
    | added _ _ _ _ unresolved => rw [unresolved] at resolved; cases resolved
    | moved before m =>
        have closed := barrier.resolutions iid _ before
        cases m with
        | bound _ pending =>
            have closed := closed resolved
            rw [pending] at closed
            cases closed
        | resolved _ _ closes => exact closes
  waits wid row id hrow named := by
    cases w.waitEffect hrow with
    | kept before => exact barrier.waits wid _ id before named
    | added _ unnamed => rw [unnamed] at named; cases named
    | moved before m =>
        have names := barrier.waits wid _ id before
        cases m with
        | bound _ target => cases named; exact target
        | resolved => exact names named
  reviews rid e he := by
    rcases w.reviewResolutions rid with same | ⟨r, hr, -, same, whole⟩ <;> rw [same] at he
    · exact (barrier.reviews rid e he).write w
    · obtain ⟨id, hid, rfl⟩ := List.mem_map.mp he
      exact (whole hD id hid).write w
  waiting := barrier.waiting.write w
  going rid r hr goes id hid := ((w.runEffect hr).going hD barrier goes id hid).write w
  own rid r hr id hid oid hrequest := by
    obtain ⟨o, ho, owner⟩ := (w.runEffect hr).own barrier id hid oid hrequest
    obtain ⟨o', ho', same⟩ := w.operation_stays ho
    exact ⟨o', ho', same.trans owner⟩
  decided rid r' hr' queued id hid oid o' hrequest ho' := by
    have effect := w.runEffect hr'
    obtain ⟨o, ho, owner⟩ := effect.own barrier id hid oid hrequest
    have owner' := ((w.operationEffect ho').runId ho).trans owner
    refine effect.decided barrier stop hr' queued (fun hr oid o ho owner unknown => ?_) hid hrequest
      ho' owner'
    refine ((w.operationEffect ho).idle (owner ▸ hr) (by simp [queued])).resolve_right ?_
    simp [unknown]

/-! ## Runs of the system -/

/-- `reconcile` releases a run only when the user and the children have answered the rest of its
barrier. -/
def ReleasesAnswered (w : World) : Action → Prop
  | .reconcile _ _ oid request => request.decision ≠ .acceptUnresolved → ∀ rid run,
      w.store.Releases oid rid run → ∀ id ∈ run.requiredInterrupts, w.store.Answered id
  | _ => True

/-- The discipline under which a review is released with its whole barrier. -/
def Discipline.wholly : Discipline := { wholeBarrier := True }

theorem ReleasesAnswered.meets {w : World} {a : Action} (h : ReleasesAnswered w a) :
    Discipline.wholly.Meets host w.store w.now a where
  scope := .all ..
  cancel _ _ _ _ := ⟨not_false, False.elim⟩
  settle _ _ _ _ _ := ⟨False.elim, False.elim, False.elim, False.elim⟩
  reconcile _ _ _ _ same _ := by
    subst same
    exact h
  delegate _ _ _ _ _ _ := False.elim

/-- The interrupt was resolved by its own source. -/
def Store.ResolvedBySource (s : Store) (id : InterruptId) : Prop :=
  match id.request with
  | .user iid => ∃ i, s.interactions.get? iid = some i ∧ i.status ≠ .pendingBinding ∧
      i.status ≠ .open
  | .children wid => ∃ w, s.waits.get? wid = some w ∧ w.resolution.isSome
  | .review oid => ∃ o, s.operations.get? oid = some o ∧ o.state ≠ .unknown

/-- In every run that releases no review before the rest of its barrier is answered, a run in the
queue has every interrupt it lists resolved by its own source, and no answer is filed for an
interaction or a wait that is open. -/
theorem queued_resolved {w : World} (reach : ((system host).restrict ReleasesAnswered).Reachable w)
    {rid : RunId} {r : Run} (h : w.store.runs.get? rid = some r) :
    (r.status = .queued → ∀ id ∈ r.requiredInterrupts, w.store.ResolvedBySource id) ∧
      ∀ e ∈ w.store.reviewResolutions rid, w.store.Answered e.1 := by
  have barrier : w.store.Barrier ∧ w.store.AcceptedStop :=
    reachable_of_writes (D := Discipline.wholly) (I := fun s => s.Barrier ∧ s.AcceptedStop)
      ⟨.initial, fun _ _ h => by cases h⟩ (fun w a _ _ met => ReleasesAnswered.meets met)
      (fun _ _ _ _ h w => ⟨h.1.write Discipline.wholly trivial (h.2.write w) w, h.2.write w⟩) reach
  refine ⟨fun queued id hid => ?_, barrier.1.reviews rid⟩
  have answered := barrier.1.going rid r h (.inl queued) id hid
  unfold Store.ResolvedBySource
  unfold Store.Answered at answered
  split
  · rename_i iid hrequest
    rw [hrequest] at answered
    obtain ⟨i, hi, closed⟩ := answered
    refine ⟨i, hi, ?_, ?_⟩ <;> intro status <;> rw [status] at closed <;> cases closed
  · rename_i wid hrequest
    rw [hrequest] at answered
    exact answered
  · rename_i oid hrequest
    obtain ⟨o, ho, -⟩ := barrier.1.own rid r h id hid oid hrequest
    exact ⟨o, ho, barrier.1.decided rid r h queued id hid oid o hrequest ho⟩

/-- A run that was answered goes on with its answer. -/
theorem queued_resolved_answered : ∃ (w : World) (r : Run), w.store.runs.get? 10 = some r ∧
    r.status = .queued ∧ r.requiredInterrupts ≠ [] ∧
    ∀ id ∈ r.requiredInterrupts, w.store.ResolvedBySource id := by
  have run : (System.runs (World.next Sample.host) Sample.start Sample.exchanged).any (fun w =>
      (w.store.runs.get? 10).any fun r =>
        decide (r.status = .queued) && decide (r.requiredInterrupts ≠ [])) = true := by decide
  simp only [Option.any_eq_true, Bool.and_eq_true, decide_eq_true_eq] at run
  obtain ⟨w, hw, r, hr, queued, waits⟩ := run
  refine ⟨w, r, hr, queued, waits,
    (queued_resolved (Sample.reachableWithin (fun a ha w => ?_) hw) hr).1 queued⟩
  simp only [Sample.exchanged, Sample.submitted, List.cons_append, List.nil_append, List.mem_cons,
    List.not_mem_nil, or_false] at ha
  rcases ha with rfl | rfl | rfl | rfl | rfl | rfl | rfl | rfl <;> trivial

namespace Sample

/-- Run `10` waits for an answer of the user and for the review of a tool whose outcome is not
known. -/
def mixed : List Action := submitted ++
  [.claim ⟨1, 1⟩ 20,
    .prepareOperation (context 20 1) ⟨1, 1, .named "mcp", "1", "args", "args", "target"⟩ 100,
    .startOperation (context 20 1) 100 operation 200 ⟨100, "1", "args", "target", 1, 500⟩ 1,
    .finishOperation (context 20 1) 100 { operationId := 100, status := .unknown, summary := "" },
    .prepareOperation (context 20 1) ⟨1, 2, .requestInput, "1", "ask", "ask", "ask"⟩ 101,
    .prepareInteraction (context 20 1)
      { key := .input 101, kind := .userInput, prompt := "", responseSchema := "{}"
        operationId := some 101, expiresAt := none } 40,
    .settle machine (context 20 1)
      { kind := .waiting, runId := 10, inputRevision := 2, checkpointRef := some checkpoint
        interruptRefs := [⟨⟨5, 1, 0, .review 100⟩, checkpoint⟩, ⟨⟨5, 1, 1, .user 40⟩, checkpoint⟩] }]

/-- The user confirms that the tool has completed. -/
def confirmed : Action := .reconcile machine 1 100
  { expectedRevision := 4, decision := .confirmCompleted, note := "checked", evidenceRefs := [1]
    resultRef := some 1 }

end Sample

/-- A run under review is released while the user has not answered. -/
theorem queued_unresolved : ¬∀ host w, (system host).Reachable w → ∀ rid r,
    w.store.runs.get? rid = some r → r.status = .queued →
    ∀ id ∈ r.requiredInterrupts, w.store.ResolvedBySource id := by
  intro resolved
  have run : (System.runs (World.next Sample.host) Sample.start
      (Sample.mixed ++ [Sample.confirmed])).any (fun w =>
        ((w.store.runs.get? 10).any fun r => decide (r.status = .queued) &&
          decide (⟨5, 1, 1, .user 40⟩ ∈ r.requiredInterrupts)) &&
        (w.store.interactions.get? 40).any fun i => decide (i.status = .open)) = true := by decide
  simp only [Option.any_eq_true, Bool.and_eq_true, decide_eq_true_eq] at run
  obtain ⟨w, hw, ⟨r, hr, queued, member⟩, i, hi, status⟩ := run
  obtain ⟨i', hi', -, closed⟩ := resolved _ w (Sample.reachable hw) 10 r hr queued _ member
  cases hi.symm.trans hi'
  exact closed status

end MiHarness

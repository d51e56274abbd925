import MiHarness.Scheduler.Refinement.Transition

/-!
# Waits and the end of an attempt refine the row protocol
-/

namespace MiHarness

open Library

variable {D : Discipline} {now : Time} {s s' : Store}

/-! ## What the checks of the source say -/

theorem Store.unresolved_eq_false {rid : RunId} (h : s.unresolved rid = false) :
    s.OpsResolved rid := by
  intro id o hget hrun
  simpa [hrun] using Table.any_eq_false.mp h id o hget

theorem Store.unresolved_eq_true {rid : RunId} :
    s.unresolved rid = true ↔
      ∃ id o, s.operations.get? id = some o ∧ o.runId = rid ∧ o.unresolved = true := by
  simp [unresolved, Table.any_iff]

theorem Store.childrenTerminal_eq_true {rid : RunId} :
    s.childrenTerminal rid = true ↔ s.ChildrenEnded rid := by
  simp only [childrenTerminal, List.all_eq_true]
  constructor
  · intro h key d child hdep hparent hchild
    exact h (d.childId, child) (mem_children.mpr ⟨mem_childIds.mpr ⟨key, d, hdep, hparent, rfl⟩, hchild⟩)
  · rintro h ⟨child, row⟩ hmem
    obtain ⟨hid, hrow⟩ := mem_children.mp hmem
    obtain ⟨key, d, hdep, hparent, rfl⟩ := mem_childIds.mp hid
    exact h key d row hdep hparent hrow

/-! ## Waking -/

theorem wake_writes {rid : RunId} (h : wake s rid now = .ok s') : Writes D now s s' := by
  simp only [wake, bind_eq_ok, Store.run_eq_ok] at h
  obtain ⟨run, hrun, h⟩ := h
  split at h
  · rename_i waiting
    obtain ⟨row, events, hrow, -, -, rfl⟩ := transition_moved h rfl
    cases hrun.symm.trans hrow
    exact (Write.runMoved hrun (.woken waiting.1 waiting.2.1 waiting.2.2)).writes.then (.events events)
  · cases h
    exact .refl

/-- Waking a run changes its row and the events. -/
theorem wake_frame {rid : RunId} (h : wake s rid now = .ok s') :
    s'.waits = s.waits ∧ s'.interactions = s.interactions := by
  simp only [wake, bind_eq_ok, Store.run_eq_ok] at h
  obtain ⟨run, -, h⟩ := h
  split at h
  · obtain ⟨row, events, -, -, -, rfl⟩ := transition_moved h rfl
    exact ⟨rfl, rfl⟩
  · cases h
    exact ⟨rfl, rfl⟩

theorem refreshWait_writes {wid : WaitId} {wait : Wait} (current : s.waits.get? wid = some wait)
    (answers : D.scope.answers wait.parentId) (h : refreshWait s wid wait now = .ok s') :
    Writes D now s s' ∧ ∀ wid', wid' ≠ wid → s'.waits.get? wid' = s.waits.get? wid' := by
  unfold refreshWait at h
  split at h
  · cases h
    exact ⟨.refl, fun _ _ => rfl⟩
  rename_i pending
  obtain ⟨children, -, h⟩ := bind_eq_ok.mp h
  split at h
  · simp only [bind_eq_ok] at h
    obtain ⟨t, hupdate, hwake⟩ := h
    obtain ⟨-, rfl⟩ := Store.updateWait_eq_ok hupdate
    have unresolved : wait.resolution = none := by
      simpa using (not_or.mp pending).2
    refine ⟨(Write.waitMoved current (.resolved _ unresolved) answers
      fun _ changed => absurd rfl changed).writes.trans (wake_writes hwake), ?_⟩
    intro wid' hne
    rw [(wake_frame hwake).1]
    exact Table.get?_modify_ne _ _ hne
  · cases h
    exact ⟨.refl, fun _ _ => rfl⟩

theorem refreshWaitsOf_writes {parent : Option RunId}
    (answers : ∀ rid, parent.all (rid = ·) = true → D.scope.answers rid)
    (h : refreshWaitsOf s parent now = .ok s') : Writes D now s s' := by
  refine foldlM_keyed (P := fun t wid wait => t.waits.get? wid = some wait)
    (fun _ => .refl) (fun _ _ _ => .trans) (Table.nodup_select _ _) h ?_ ?_
  · exact fun e he => (Table.mem_select.mp he).1
  · intro e he t t' _ current hturn
    have asked := answers e.2.parentId (Table.mem_select.mp he).2
    obtain ⟨writes, others⟩ := refreshWait_writes current asked hturn
    exact ⟨writes, fun e' _ hne hP => (others e'.1 hne).trans hP⟩

theorem refreshWaits_writes (answers : ∀ rid, D.scope.answers rid)
    (h : refreshWaits s now = .ok s') : Writes D now s s' := by
  simp only [refreshWaits, bind_eq_ok] at h
  obtain ⟨t, hall, h⟩ := h
  refine (refreshWaitsOf_writes (fun rid _ => answers rid) hall).trans (writes_foldlM h fun e _ u u' _ hturn => ?_)
  obtain ⟨v, hof, hturn⟩ := bind_eq_ok.mp hturn
  cases hturn
  exact (refreshWaitsOf_writes (fun rid _ => answers rid) hof).then (.books v.ledger v.events _ v.inputCommands v.maintenance)

/-! ## Answers -/

theorem respond_writes {host : Host} {owner : OwnerId} {iid : InteractionId}
    {request : RespondRequest}
    (answers : ∀ i, s.interactions.get? iid = some i → D.scope.answers i.runId)
    (h : respond host s owner iid request now = .ok s') : Writes D now s s' := by
  simp only [respond, bind_eq_ok, require_eq_ok, Store.interaction_eq_ok, exists_const] at h
  obtain ⟨i, hi, run, -, -, ⟨isOpen, -⟩, -, -, -, t, hupdate, hwake⟩ := h
  obtain rfl := Store.updateInteraction_eq_ok hupdate
  exact ((Write.interactionMoved hi (.resolved _ isOpen rfl) (answers i hi)).writes.then (.event _ _ _ _)).trans
    (wake_writes hwake)

theorem expireInteraction_writes {iid : InteractionId} {i : Interaction}
    (current : s.interactions.get? iid = some i) (answers : D.scope.answers i.runId)
    (h : expireInteraction s iid i now = .ok s') : Writes D now s s' ∧
      ∀ iid', iid' ≠ iid → s'.interactions.get? iid' = s.interactions.get? iid' := by
  unfold expireInteraction at h
  split at h
  · rename_i expired
    obtain ⟨t, hupdate, h⟩ := bind_eq_ok.mp h
    obtain rfl := Store.updateInteraction_eq_ok hupdate
    cases h
    refine ⟨(Write.interactionMoved current (.resolved _ expired.1 rfl) answers).writes.then
      (.event _ _ _ _), ?_⟩
    exact fun iid' hne => Table.get?_modify_ne _ _ hne
  · cases h
    exact ⟨.refl, fun _ _ => rfl⟩

theorem expireInteractionsOf_writes {rid : RunId} (answers : D.scope.answers rid)
    (h : (s.interactionsOf rid).foldlM (fun s i => expireInteraction s i.1 i.2 now) s = .ok s') :
    Writes D now s s' := by
  refine foldlM_keyed (P := fun v iid i => v.interactions.get? iid = some i)
    (fun _ => .refl) (fun _ _ _ => .trans) (Table.nodup_select _ _) h ?_ ?_
  · exact fun i hi => (Table.mem_select.mp hi).1
  · intro i hi v v' _ current hexpire
    have owner : i.2.runId = rid := of_decide_eq_true (Table.mem_select.mp hi).2
    obtain ⟨writes, others⟩ := expireInteraction_writes current (owner ▸ answers) hexpire
    exact ⟨writes, fun i' _ hne hP => (others i'.1 hne).trans hP⟩

theorem expireInteractions_writes (answers : ∀ rid, D.scope.answers rid)
    (h : expireInteractions s now = .ok s') : Writes D now s s' := by
  refine writes_foldlM h fun e _ t t' _ hturn => ?_
  obtain ⟨u, hinner, hwake⟩ := bind_eq_ok.mp hturn
  exact (expireInteractionsOf_writes (answers e.1) hinner).trans (wake_writes hwake)

/-! ## Binding -/

/-- What binding the interrupts of a run leaves alone. -/
structure Bound (s t : Store) : Prop where
  runs : t.runs = s.runs
  owners : ∀ oid o', t.operations.get? oid = some o' →
    ∃ o, s.operations.get? oid = some o ∧ o.runId = o'.runId
  dependencies : t.dependencies = s.dependencies
  parents : ∀ wid w', t.waits.get? wid = some w' →
    ∃ w, s.waits.get? wid = some w ∧ w.parentId = w'.parentId
  unknown : ∀ oid o, s.operations.get? oid = some o → ∃ o', t.operations.get? oid = some o' ∧
    o'.runId = o.runId ∧ (o'.state = o.state ∨ o'.state = .unknown)

theorem Bound.of_eq {t : Store} (runs : t.runs = s.runs) (operations : t.operations = s.operations)
    (dependencies : t.dependencies = s.dependencies) (parents : ∀ wid w', t.waits.get? wid = some w' →
      ∃ w, s.waits.get? wid = some w ∧ w.parentId = w'.parentId) : Bound s t where
  runs := runs
  owners _ o' h := ⟨o', operations ▸ h, rfl⟩
  dependencies := dependencies
  parents := parents
  unknown _ o h := ⟨o, operations ▸ h, rfl, .inl rfl⟩

theorem Bound.refl : Bound s s := .of_eq rfl rfl rfl fun _ w h => ⟨w, h, rfl⟩

theorem Bound.trans {t u : Store} (h : Bound s t) (k : Bound t u) : Bound s u where
  runs := k.runs.trans h.runs
  owners oid o' ho' := by
    obtain ⟨o₁, h₁, e₁⟩ := k.owners oid o' ho'
    obtain ⟨o, h₀, e₀⟩ := h.owners oid o₁ h₁
    exact ⟨o, h₀, e₀.trans e₁⟩
  dependencies := k.dependencies.trans h.dependencies
  parents wid w' hw' := by
    obtain ⟨w₁, h₁, e₁⟩ := k.parents wid w' hw'
    obtain ⟨w, h₀, e₀⟩ := h.parents wid w₁ h₁
    exact ⟨w, h₀, e₀.trans e₁⟩
  unknown oid o ho := by
    obtain ⟨o₁, h₁, e₁, u₁⟩ := h.unknown oid o ho
    obtain ⟨o', h', e', u'⟩ := k.unknown oid o₁ h₁
    refine ⟨o', h', e'.trans e₁, ?_⟩
    rcases u' with u' | u'
    · rcases u₁ with u₁ | u₁
      · exact .inl (u'.trans u₁)
      · exact .inr (u'.trans u₁)
    · exact .inr u'

/-- The review interrupts of a list name operations of the run. -/
def Store.OwnReviews (s : Store) (rid : RunId) (refs : List InterruptRef) : Prop :=
  ∀ ref ∈ refs, ∀ oid o, ref.interruptId.request = .review oid →
    s.operations.get? oid = some o → o.runId = rid

/-- The waits that a list of interrupts names are the run's own, as far as the discipline asks. -/
structure Store.OwnWaits (D : Discipline) (s : Store) (rid : RunId) (refs : List InterruptRef) :
    Prop where
  answers : ∀ ref ∈ refs, ∀ wid w, ref.interruptId.request = .children wid →
    s.waits.get? wid = some w → D.scope.answers w.parentId
  sourced : D.sourced → ∀ ref ∈ refs, ∀ wid w, ref.interruptId.request = .children wid →
    s.waits.get? wid = some w → w.parentId = rid

theorem Store.OwnWaits.free (s : Store) (rid : RunId) (refs : List InterruptRef) :
    s.OwnWaits {} rid refs :=
  ⟨fun _ _ _ _ _ _ => trivial, False.elim⟩

theorem bindInterrupt_writes {ctx : ExecutionContext} {checkpoint : CheckpointRef}
    {ref : InterruptRef} (running : s.Running ctx.runId) (acts : D.scope.acts ctx.runId)
    (own : s.OwnReviews ctx.runId [ref]) (answers : D.scope.answers ctx.runId)
    (waits : s.OwnWaits D ctx.runId [ref])
    (h : bindInterrupt s ctx checkpoint ref now = .ok s') : Writes D now s s' ∧ Bound s s' := by
  unfold bindInterrupt at h
  split at h
  · rename_i iid hrequest
    simp only [bind_eq_ok, require_eq_ok, Store.interaction_eq_ok, exists_const] at h
    obtain ⟨i, hi, ⟨hrun, -⟩, h⟩ := h
    split at h
    · rename_i pending
      obtain ⟨t, hupdate, h⟩ := bind_eq_ok.mp h
      obtain rfl := Store.updateInteraction_eq_ok hupdate
      cases h
      exact ⟨(Write.interactionMoved hi (.bound checkpoint pending (hrun ▸ running) hrequest)
        (hrun ▸ answers)).writes.then (.event _ _ _ _), .of_eq rfl rfl rfl fun _ w h => ⟨w, h, rfl⟩⟩
    · cases h
      exact ⟨.refl, .refl⟩
  · rename_i wid hrequest
    simp only [bind_eq_ok, Store.wait_eq_ok] at h
    obtain ⟨w, hw, h⟩ := h
    obtain ⟨-, rfl⟩ := Store.updateWait_eq_ok h
    have row : s.waits.modify wid (fun w' => { w' with
          interruptId := some ref.interruptId, checkpointRef := some checkpoint
          resolution := w.resolution, revision := w'.revision + 1 }) =
        s.waits.modify wid fun w' => { w' with
          interruptId := some ref.interruptId, checkpointRef := some checkpoint
          revision := w'.revision + 1 } :=
      Table.modify_congr fun w' hw' => by
        cases hw.symm.trans hw'
        rfl
    rw [row]
    have here := List.mem_singleton_self ref
    refine ⟨(Write.waitMoved hw (.bound checkpoint hrequest)
      (waits.answers ref here wid w hrequest hw) fun d _ => ?_).writes,
      .of_eq rfl rfl rfl fun wid' w' hw' => ?_⟩
    · exact waits.sourced d ref here wid w hrequest hw ▸ running
    · rw [Table.get?_modify] at hw'
      split at hw'
      · obtain ⟨w₀, h₀, rfl⟩ := Option.map_eq_some_iff.mp hw'
        exact ⟨w₀, h₀, rfl⟩
      · exact ⟨w', hw', rfl⟩
  · rename_i oid hrequest
    simp only [bind_eq_ok, Store.operation_eq_ok] at h
    obtain ⟨o, ho, h⟩ := h
    split at h
    · rename_i isRunning
      obtain ⟨-, -, rfl⟩ := Store.updateOperation_eq_ok h
      obtain ⟨run, hrun, status⟩ := running
      have owner := own ref (List.mem_singleton_self _) oid o hrequest ho
      refine ⟨(Write.operationMoved ho (.lost isRunning (owner ▸ hrun)
        (by simp [status, recoverable]) (.inl rfl) rfl (owner ▸ acts) (by simp))
        (.opened rfl rfl)).writes, rfl, fun oid' o' ho' => ?_, rfl, fun _ w h => ⟨w, h, rfl⟩,
        fun oid' o' ho' => ?_⟩
      · rw [Table.get?_modify] at ho'
        split at ho'
        · obtain ⟨o₀, h₀, rfl⟩ := Option.map_eq_some_iff.mp ho'
          exact ⟨o₀, h₀, rfl⟩
        · exact ⟨o', ho', rfl⟩
      · by_cases he : oid' = oid
        · subst he
          refine ⟨OperationPatch.apply { state := some .unknown } o', ?_, rfl, .inr rfl⟩
          rw [Table.get?_modify_self, ho']
          rfl
        · exact ⟨o', by rw [Table.get?_modify_ne _ _ he, ho'], rfl, .inl rfl⟩
    · cases h
      exact ⟨.refl, .refl⟩

theorem Store.OwnReviews.bound {t : Store} {rid : RunId} {refs : List InterruptRef}
    (own : s.OwnReviews rid refs) (b : Bound s t) : t.OwnReviews rid refs := by
  intro ref href oid o' hrequest ho'
  obtain ⟨o, ho, owner⟩ := b.owners oid o' ho'
  exact owner ▸ own ref href oid o hrequest ho

theorem Store.Running.bound {t : Store} {rid : RunId} (running : s.Running rid) (b : Bound s t) :
    t.Running rid := by
  obtain ⟨run, hrun, status⟩ := running
  exact ⟨run, b.runs ▸ hrun, status⟩

theorem Store.OwnWaits.bound {t : Store} {rid : RunId} {refs : List InterruptRef}
    (own : s.OwnWaits D rid refs) (b : Bound s t) : t.OwnWaits D rid refs where
  answers ref href wid w' hrequest hw' := by
    obtain ⟨w, hw, owner⟩ := b.parents wid w' hw'
    exact owner ▸ own.answers ref href wid w hrequest hw
  sourced d ref href wid w' hrequest hw' := by
    obtain ⟨w, hw, owner⟩ := b.parents wid w' hw'
    exact owner ▸ own.sourced d ref href wid w hrequest hw

theorem bindInterrupts_writes {ctx : ExecutionContext} {checkpoint : CheckpointRef}
    {refs : List InterruptRef} (running : s.Running ctx.runId) (acts : D.scope.acts ctx.runId)
    (own : s.OwnReviews ctx.runId refs) (answers : D.scope.answers ctx.runId)
    (waits : s.OwnWaits D ctx.runId refs)
    (h : refs.foldlM (fun s ref => bindInterrupt s ctx checkpoint ref now) s = .ok s') :
    Writes D now s s' ∧ Bound s s' := by
  refine foldlM_closed (R := fun t t' => Writes D now t t' ∧ Bound t t')
    (fun _ => ⟨.refl, .refl⟩) (fun _ _ _ h k => ⟨h.1.trans k.1, h.2.trans k.2⟩) h ?_
  intro ref href t t' ht hturn
  have here : ∀ r ∈ [ref], r ∈ refs := fun r hr => List.mem_singleton.mp hr ▸ href
  have kept := waits.bound ht.2
  exact bindInterrupt_writes (running.bound ht.2) acts (fun r hr => own.bound ht.2 r (here r hr))
    answers ⟨fun r hr => kept.answers r (here r hr), fun d r hr => kept.sourced d r (here r hr)⟩
    hturn

/-- A review interrupt leaves its operation unknown, if it was running. -/
theorem bindInterrupt_review {ctx : ExecutionContext} {checkpoint : CheckpointRef}
    {ref : InterruptRef} {oid : OperationId} {o : Operation}
    (hrequest : ref.interruptId.request = .review oid) (ho : s.operations.get? oid = some o)
    (started : o.state = .running ∨ o.state = .unknown)
    (h : bindInterrupt s ctx checkpoint ref now = .ok s') :
    ∃ o', s'.operations.get? oid = some o' ∧ o'.runId = o.runId ∧ o'.state = .unknown := by
  simp only [bindInterrupt, hrequest, bind_eq_ok, Store.operation_eq_ok] at h
  obtain ⟨row, hrow, h⟩ := h
  cases ho.symm.trans hrow
  split at h
  · obtain ⟨-, -, rfl⟩ := Store.updateOperation_eq_ok h
    refine ⟨OperationPatch.apply { state := some .unknown } o, ?_, rfl, rfl⟩
    rw [Table.get?_modify_self, ho]
    rfl
  · rename_i idle
    cases h
    exact ⟨o, ho, rfl, started.resolve_left idle⟩

/-- The operation is unknown, or is running and named by one of the review interrupts. -/
def Operation.reviewedBy (o : Operation) (oid : OperationId) (refs : List InterruptRef) : Prop :=
  o.state = .unknown ∨ o.state = .running ∧ ∃ ref ∈ refs, ref.interruptId.request = .review oid

theorem bindInterrupts_unknown {ctx : ExecutionContext} {checkpoint : CheckpointRef}
    {oid : OperationId} :
    ∀ {refs : List InterruptRef} {s : Store} {o : Operation}, s.Running ctx.runId →
      s.OwnReviews ctx.runId refs → s.operations.get? oid = some o → o.reviewedBy oid refs →
      refs.foldlM (fun s ref => bindInterrupt s ctx checkpoint ref now) s = .ok s' →
      ∃ o', s'.operations.get? oid = some o' ∧ o'.runId = o.runId ∧ o'.state = .unknown
  | [], s, o, _, _, ho, named, h => by
      cases h
      exact ⟨o, ho, rfl, named.resolve_right fun ⟨_, ref, href, _⟩ => by simp at href⟩
  | ref :: refs, s, o, running, own, ho, named, h => by
      rw [List.foldlM_cons] at h
      obtain ⟨t, hbind, h⟩ := bind_eq_ok.mp h
      have ownHere : s.OwnReviews ctx.runId [ref] := fun r hr =>
        own r (List.mem_singleton.mp hr ▸ List.mem_cons_self ..)
      have b : Bound s t :=
        (bindInterrupt_writes (D := {}) running trivial ownHere trivial (.free ..) hbind).2
      have later : t.OwnReviews ctx.runId refs :=
        Store.OwnReviews.bound (fun r hr => own r (List.mem_cons_of_mem _ hr)) b
      obtain ⟨o₁, ho₁, owner, state⟩ := b.unknown oid o ho
      have named₁ : o₁.reviewedBy oid refs := by
        rcases named with unknown | ⟨isRunning, r, hr, hrequest⟩
        · exact .inl (state.elim (fun e => e.trans unknown) id)
        · rcases List.mem_cons.mp hr with rfl | hr
          · obtain ⟨o₂, ho₂, -, unknown⟩ := bindInterrupt_review hrequest ho (.inl isRunning) hbind
            cases ho₁.symm.trans ho₂
            exact .inl unknown
          · exact state.elim (fun e => .inr ⟨e.trans isRunning, r, hr, hrequest⟩) .inl
      obtain ⟨o', ho', owner', unknown⟩ :=
        bindInterrupts_unknown (running.bound b) later ho₁ named₁ h
      exact ⟨o', ho', owner'.trans owner, unknown⟩

/-- A review interrupt that is bound has an operation. -/
theorem bindInterrupts_found {ctx : ExecutionContext} {checkpoint : CheckpointRef} :
    ∀ {refs : List InterruptRef} {s : Store}, s.Running ctx.runId → s.OwnReviews ctx.runId refs →
      refs.foldlM (fun s ref => bindInterrupt s ctx checkpoint ref now) s = .ok s' →
      ∀ ref ∈ refs, ∀ oid, ref.interruptId.request = .review oid →
        ∃ o, s.operations.get? oid = some o
  | [], _, _, _, _, _, href, _, _ => by simp at href
  | first :: refs, s, running, own, h, ref, href, oid, hrequest => by
      rw [List.foldlM_cons] at h
      obtain ⟨t, hbind, h⟩ := bind_eq_ok.mp h
      rcases List.mem_cons.mp href with rfl | href
      · simp only [bindInterrupt, hrequest, bind_eq_ok, Store.operation_eq_ok] at hbind
        obtain ⟨o, ho, -⟩ := hbind
        exact ⟨o, ho⟩
      · have ownHere : s.OwnReviews ctx.runId [first] := fun r hr =>
          own r (List.mem_singleton.mp hr ▸ List.mem_cons_self ..)
        have b : Bound s t := (bindInterrupt_writes (D := {}) running trivial ownHere trivial (.free ..) hbind).2
        have later : t.OwnReviews ctx.runId refs :=
          Store.OwnReviews.bound (fun r hr => own r (List.mem_cons_of_mem _ hr)) b
        obtain ⟨o', ho'⟩ := bindInterrupts_found (running.bound b) later h ref href oid hrequest
        obtain ⟨o, ho, -⟩ := b.owners oid o' ho'
        exact ⟨o, ho⟩

/-! ## The sources of a barrier -/

/-- The interrupts of a waiting outcome name interactions that wait to be bound and waits of the
run, each of them once. -/
structure Store.Names (s : Store) (rid : RunId) (refs : List InterruptRef) : Prop where
  pending : ∀ ref ∈ refs, ∀ iid, ref.interruptId.request = .user iid →
    ∃ i, s.interactions.get? iid = some i ∧ i.status = .pendingBinding
  waits : ∀ ref ∈ refs, ∀ wid, ref.interruptId.request = .children wid →
    ∃ w, s.waits.get? wid = some w ∧ w.parentId = rid
  distinct : (refs.map fun ref => ref.interruptId.request).Nodup

theorem Store.Names.ownWaits {rid : RunId} {refs : List InterruptRef} (names : s.Names rid refs)
    (answers : D.scope.answers rid) : s.OwnWaits D rid refs := by
  have own : ∀ ref ∈ refs, ∀ wid w, ref.interruptId.request = .children wid →
      s.waits.get? wid = some w → w.parentId = rid := by
    intro ref href wid w hrequest hw
    obtain ⟨w', hw', owner⟩ := names.waits ref href wid hrequest
    cases hw.symm.trans hw'
    exact owner
  exact ⟨fun ref href wid w hrequest hw => own ref href wid w hrequest hw ▸ answers, fun _ => own⟩

/-- Binding an interrupt touches the row it names, and no other interaction or wait. -/
theorem bindInterrupt_rows {ctx : ExecutionContext} {checkpoint : CheckpointRef}
    {ref : InterruptRef} (h : bindInterrupt s ctx checkpoint ref now = .ok s') :
    (∀ iid, ref.interruptId.request ≠ .user iid →
        s'.interactions.get? iid = s.interactions.get? iid) ∧
      ∀ wid, ref.interruptId.request ≠ .children wid → s'.waits.get? wid = s.waits.get? wid := by
  unfold bindInterrupt at h
  split at h
  · rename_i iid hrequest
    simp only [bind_eq_ok] at h
    obtain ⟨i, -, -, -, h⟩ := h
    split at h
    · obtain ⟨t, hupdate, h⟩ := bind_eq_ok.mp h
      obtain rfl := Store.updateInteraction_eq_ok hupdate
      cases h
      refine ⟨fun iid' hne => Table.get?_modify_ne _ _ fun same => hne ?_, fun _ _ => rfl⟩
      rw [hrequest, same]
    · cases h
      exact ⟨fun _ _ => rfl, fun _ _ => rfl⟩
  · rename_i wid hrequest
    obtain ⟨w, -, h⟩ := bind_eq_ok.mp h
    obtain ⟨-, rfl⟩ := Store.updateWait_eq_ok h
    refine ⟨fun _ _ => rfl, fun wid' hne => Table.get?_modify_ne _ _ fun same => hne ?_⟩
    rw [hrequest, same]
  · obtain ⟨o, -, h⟩ := bind_eq_ok.mp h
    split at h
    · obtain ⟨-, -, rfl⟩ := Store.updateOperation_eq_ok h
      exact ⟨fun _ _ => rfl, fun _ _ => rfl⟩
    · cases h
      exact ⟨fun _ _ => rfl, fun _ _ => rfl⟩

/-- What an interrupt waits for is bound to it. -/
theorem bindInterrupt_sourced {ctx : ExecutionContext} {checkpoint : CheckpointRef}
    {ref : InterruptRef} {refs : List InterruptRef} (names : s.Names ctx.runId (ref :: refs))
    (h : bindInterrupt s ctx checkpoint ref now = .ok s') :
    s'.Sourced ctx.runId ref.interruptId := by
  have here := List.mem_cons_self (a := ref) (l := refs)
  rw [bindInterrupt] at h
  rw [Store.Sourced]
  cases hrequest : ref.interruptId.request with
  | user iid =>
    rw [hrequest] at h
    simp only [bind_eq_ok, require_eq_ok, Store.interaction_eq_ok, exists_const] at h
    obtain ⟨i, hi, ⟨owner, -⟩, h⟩ := h
    obtain ⟨i', hi', pending⟩ := names.pending ref here iid hrequest
    cases hi.symm.trans hi'
    rw [if_pos pending] at h
    obtain ⟨t, hupdate, h⟩ := bind_eq_ok.mp h
    obtain rfl := Store.updateInteraction_eq_ok hupdate
    cases h
    refine ⟨InteractionPatch.apply { interruptId := some ref.interruptId
                                     checkpointRef := some checkpoint, status := some .open } i,
      ?_, owner, rfl, .inl rfl⟩
    show (s.interactions.modify iid _).get? iid = _
    rw [Table.get?_modify_self, hi]
    rfl
  | children wid =>
    rw [hrequest] at h
    obtain ⟨w, hw, h⟩ := bind_eq_ok.mp h
    obtain ⟨-, rfl⟩ := Store.updateWait_eq_ok h
    obtain ⟨w', hw', owner⟩ := names.waits ref here wid hrequest
    cases (Store.wait_eq_ok.mp hw).symm.trans hw'
    refine ⟨{ w with interruptId := some ref.interruptId, checkpointRef := some checkpoint
                     revision := w.revision + 1 }, ?_, owner, rfl, rfl⟩
    show (s.waits.modify wid _).get? wid = _
    rw [Table.get?_modify_self, hw']
    rfl
  | review oid => trivial

theorem Store.Sourced.bind {ctx : ExecutionContext} {checkpoint : CheckpointRef}
    {ref : InterruptRef} {rid : RunId} {id : InterruptId} (sourced : s.Sourced rid id)
    (other : ref.interruptId.request ≠ id.request)
    (h : bindInterrupt s ctx checkpoint ref now = .ok s') : s'.Sourced rid id := by
  obtain ⟨interactions, waits⟩ := bindInterrupt_rows h
  unfold Store.Sourced at sourced ⊢
  split <;> rename_i hrequest <;> rw [hrequest] at sourced other
  · rwa [interactions _ other]
  · rwa [waits _ other]
  · trivial

theorem Store.Names.bind {ctx : ExecutionContext} {checkpoint : CheckpointRef} {ref : InterruptRef}
    {refs : List InterruptRef} {rid : RunId} (names : s.Names rid (ref :: refs))
    (h : bindInterrupt s ctx checkpoint ref now = .ok s') : s'.Names rid refs := by
  obtain ⟨interactions, waits⟩ := bindInterrupt_rows h
  have distinct := names.distinct
  rw [List.map_cons, List.nodup_cons] at distinct
  have apart : ∀ ref' ∈ refs, ref.interruptId.request ≠ ref'.interruptId.request := by
    intro ref' href' same
    exact distinct.1 (same ▸ List.mem_map_of_mem href')
  refine ⟨fun ref' href' iid hrequest => ?_, fun ref' href' wid hrequest => ?_, distinct.2⟩
  · rw [interactions iid (hrequest ▸ apart ref' href')]
    exact names.pending ref' (List.mem_cons_of_mem _ href') iid hrequest
  · rw [waits wid (hrequest ▸ apart ref' href')]
    exact names.waits ref' (List.mem_cons_of_mem _ href') wid hrequest

/-- After the loop of `settle` every interrupt of the outcome has its source. -/
theorem bindInterrupts_sourced {ctx : ExecutionContext} {checkpoint : CheckpointRef} :
    ∀ {refs : List InterruptRef} {s : Store}, s.Names ctx.runId refs →
      refs.foldlM (fun s ref => bindInterrupt s ctx checkpoint ref now) s = .ok s' →
      (∀ id, s.Sourced ctx.runId id → (∀ ref ∈ refs, ref.interruptId.request ≠ id.request) →
        s'.Sourced ctx.runId id) ∧ ∀ ref ∈ refs, s'.Sourced ctx.runId ref.interruptId
  | [], _, _, h => by
      cases h
      exact ⟨fun _ sourced _ => sourced, by simp⟩
  | ref :: refs, s, names, h => by
      rw [List.foldlM_cons] at h
      obtain ⟨t, hbind, h⟩ := bind_eq_ok.mp h
      obtain ⟨kept, rest⟩ := bindInterrupts_sourced (names.bind hbind) h
      have distinct := names.distinct
      rw [List.map_cons, List.nodup_cons] at distinct
      constructor
      · intro id sourced apart
        exact kept id (sourced.bind (apart ref (List.mem_cons_self ..)) hbind)
          fun ref' href' => apart ref' (List.mem_cons_of_mem _ href')
      · intro ref' href'
        rcases List.mem_cons.mp href' with rfl | href'
        · refine kept _ (bindInterrupt_sourced names hbind) fun ref'' href'' same => ?_
          exact distinct.1 (same ▸ List.mem_map_of_mem href'')
        · exact rest ref' href'

/-! ## Settling -/

theorem waitingStatus_cases (refs : List InterruptRef) :
    waitingStatus refs = .needsReview ∨
      (waitingStatus refs = .waitingUser ∨ waitingStatus refs = .waitingChildren) ∧
        ∀ ref ∈ refs, ref.kind ≠ .review := by
  unfold waitingStatus
  split
  · exact .inl rfl
  · rename_i none
    refine .inr ⟨by split <;> simp, fun ref href hkind => none ?_⟩
    exact List.any_eq_true.mpr ⟨ref, href, decide_eq_true hkind⟩

theorem InterruptRef.kind_review {ref : InterruptRef} {oid : OperationId}
    (h : ref.interruptId.request = .review oid) : ref.kind = .review := by
  rw [InterruptRef.kind, h]

/-- The attempt of a context whose run has stopped running may be ended. -/
theorem endAttempt_writes {ctx : ExecutionContext} (reason : String) (run : Run)
    (hrun : s.runs.get? ctx.runId = some run) (named : run.attemptId = some ctx.workerAttemptId)
    (stopped : run.status ≠ .running) (acts : D.scope.acts ctx.runId) :
    Writes D now s (s.endAttempt ctx.workerAttemptId reason now) :=
  (Write.attemptEnded reason ⟨ctx.runId, run, hrun, named, stopped, acts⟩).writes

/-- The writes of `settle` for a waiting outcome, before it tries to wake the run. -/
theorem settleWaiting_eq_ok {ctx : ExecutionContext} {outcome : RuntimeOutcome} {run : Run}
    (hrun : s.runs.get? ctx.runId = some run) (isRunning : run.status = .running)
    (named : run.attemptId = some ctx.workerAttemptId) (acts : D.scope.acts ctx.runId)
    (own : s.OwnReviews ctx.runId outcome.interruptRefs)
    (reviewed : D.unknownReviewed → waitingStatus outcome.interruptRefs = .needsReview →
      ∃ oid o, s.operations.get? oid = some o ∧ o.runId = ctx.runId ∧
        o.reviewedBy oid outcome.interruptRefs)
    (answers : D.scope.answers ctx.runId)
    (waits : s.OwnWaits D ctx.runId outcome.interruptRefs)
    (names : D.sourced → s.Names ctx.runId outcome.interruptRefs)
    (h : settleWaiting s ctx outcome now = .ok s') :
    ∃ v, Writes D now s v ∧ wake v ctx.runId now = .ok s' := by
  simp only [settleWaiting, bind_eq_ok, orThrow_eq_ok] at h
  obtain ⟨checkpoint, -, t, hbind, u, hmove, v, hrefresh, hwake⟩ := h
  have running : s.Running ctx.runId := ⟨run, hrun, isRunning⟩
  obtain ⟨bindings, bound⟩ := bindInterrupts_writes running acts own answers waits hbind
  have live : (waitingStatus outcome.interruptRefs).terminal = false := by
    rcases waitingStatus_cases outcome.interruptRefs with e | ⟨e | e, -⟩ <;> rw [e] <;> rfl
  obtain ⟨row, events, hrow, -, -, rfl⟩ := transition_moved hmove live
  rw [bound.runs, hrun] at hrow
  cases hrow
  have moved : Write D now t { t with
      runs := t.runs.modify ctx.runId fun r =>
        { r with status := waitingStatus outcome.interruptRefs
                 requiredInterrupts := outcome.interruptRefs.map InterruptRef.interruptId
                 revision := r.revision + 1 } } := .runMoved (bound.runs ▸ hrun) <| .suspended isRunning
    (by rcases waitingStatus_cases outcome.interruptRefs with e | ⟨e | e, -⟩ <;> simp [e])
    (by
      rintro waits id hid oid hrequest
      obtain ⟨ref, href, rfl⟩ := List.mem_map.mp hid
      rcases waitingStatus_cases outcome.interruptRefs with e | ⟨-, e⟩
      · exact waits e
      · exact e ref href (InterruptRef.kind_review hrequest))
    (by
      intro id hid oid hrequest
      obtain ⟨ref, href, rfl⟩ := List.mem_map.mp hid
      obtain ⟨o, ho⟩ := bindInterrupts_found running own hbind ref href oid hrequest
      obtain ⟨o', ho', owner, -⟩ := bound.unknown oid o ho
      exact ⟨o', ho', owner.trans (own ref href oid o hrequest ho)⟩)
    (by
      intro review d
      obtain ⟨oid, o, ho, owner, byRef⟩ := reviewed d review
      obtain ⟨o', ho', owner', unknown⟩ := bindInterrupts_unknown running own ho byRef hbind
      exact ⟨oid, o', ho', owner'.trans owner, unknown⟩)
    acts answers
    (by
      intro d id hid
      obtain ⟨ref, href, rfl⟩ := List.mem_map.mp hid
      exact (bindInterrupts_sourced (names d) hbind).2 ref href)
  have here : ∀ rid, (some ctx.runId).all (rid = ·) = true → D.scope.answers rid := by
    intro rid same
    have same : rid = ctx.runId := by simpa using same
    exact same ▸ answers
  refine ⟨v, (((bindings.then moved).then (.events events)).trans
    (endAttempt_writes "waiting" ?_ ?_ ?_ ?_ acts)).trans (refreshWaitsOf_writes here hrefresh), hwake⟩
  · exact RunPatch.apply
      { status := some (waitingStatus outcome.interruptRefs)
        requiredInterrupts := some (outcome.interruptRefs.map InterruptRef.interruptId) } run
  · show (t.runs.modify ctx.runId _).get? ctx.runId = _
    rw [Table.get?_modify_self, bound.runs, hrun]
    rfl
  · exact named
  · show waitingStatus outcome.interruptRefs ≠ .running
    rcases waitingStatus_cases outcome.interruptRefs with e | ⟨e | e, -⟩ <;> rw [e] <;> simp

theorem settleCancelling_writes {ctx : ExecutionContext} {run : Run}
    (hrun : s.runs.get? ctx.runId = some run) (status : run.status = .cancelling)
    (named : run.attemptId = some ctx.workerAttemptId) (acts : D.scope.acts ctx.runId)
    (h : settleCancelling s ctx now = .ok s') : Writes D now s s' := by
  unfold settleCancelling at h
  split at h
  · rename_i ends
    obtain ⟨t, hfinish, h⟩ := bind_eq_ok.mp h
    cases h
    refine (transition_finished hfinish rfl (fun _ => Store.unresolved_eq_false ends.1)
      (fun _ => Store.childrenTerminal_eq_true.mp ends.2) fun _ _ _ => .inl acts).trans
      (endAttempt_writes "cancel" (RunPatch.apply { status := some .cancelled } run) ?_ named
        (by simp [RunPatch.apply]) acts)
    rw [transition_runs hfinish, Table.get?_modify_self, hrun]
    rfl
  · cases h
    exact endAttempt_writes "cancel" run hrun named (by simp [status]) acts

/-- The transition of `settle` for an outcome that does not wait. -/
theorem settleEnded_writes {readable : ArtifactId → OwnerId → Bool} {ctx : ExecutionContext}
    {outcome : RuntimeOutcome} {run : Run} (hrun : s.runs.get? ctx.runId = some run)
    (isRunning : run.status = .running) (named : run.attemptId = some ctx.workerAttemptId)
    (acts : D.scope.acts ctx.runId)
    (unknown : D.unknownReviewed → ¬s.OpsResolved ctx.runId → s.HasUnknown ctx.runId)
    (children : D.childrenFirst → outcome.kind ≠ .final → s.OpsResolved ctx.runId →
      s.ChildrenEnded ctx.runId)
    (h : settleEnded s readable ctx outcome now = .ok s') : Writes D now s s' := by
  have ended : ∀ {t : Store} {status : RunStatus} {ctx' : Option ExecutionContext}
      {reason : Option String} {extra : RunPatch}, status ≠ .running → extra.attemptId = none →
      transition s ctx.runId status ctx' reason extra now = .ok t →
      Writes D now t (t.endAttempt ctx.workerAttemptId outcome.kind.label now) := by
    intro t status ctx' reason extra stopped attempt hmove
    refine endAttempt_writes _ (RunPatch.apply { extra with status := some status } run) ?_ ?_ stopped
      acts
    · rw [transition_runs hmove, Table.get?_modify_self, hrun]
      rfl
    · simp [RunPatch.apply, attempt, named]
  unfold settleEnded at h
  split at h
  · rename_i open'
    obtain ⟨t, hmove, h⟩ := bind_eq_ok.mp h
    cases h
    have moved := hmove
    obtain ⟨row, events, -, -, -, rfl⟩ := transition_moved hmove rfl
    obtain ⟨oid, o, ho, owner, unresolved⟩ := Store.unresolved_eq_true.mp open'
    have notResolved : ¬s.OpsResolved ctx.runId := fun resolved => by
      rw [resolved oid o ho owner] at unresolved
      cases unresolved
    exact ((Write.runMoved hrun
      (.reviewed (.inl isRunning) (fun d => unknown d notResolved) acts)).writes.then
      (.events events)).trans (ended (by simp) rfl moved)
  rename_i settled
  have resolved := Store.unresolved_eq_false (Bool.not_eq_true _ ▸ settled)
  split at h
  · obtain ⟨t, hfinal, h⟩ := bind_eq_ok.mp h
    cases h
    simp only [settleFinal, bind_eq_ok, require_eq_ok, exists_const] at hfinal
    obtain ⟨-, -, result, -, -, childrenEnded, hmove⟩ := hfinal
    exact (transition_finished hmove rfl (fun _ => resolved)
      (fun _ => Store.childrenTerminal_eq_true.mp childrenEnded) fun _ _ _ => .inl acts).trans (ended (by simp) rfl hmove)
  · rename_i notFinal
    obtain ⟨t, hmove, h⟩ := bind_eq_ok.mp h
    cases h
    exact (transition_finished hmove rfl (fun _ => resolved)
      (fun d => children d notFinal resolved) fun _ _ _ => .inl acts).trans (ended (by simp) rfl hmove)

/-- What `settle` needs of its outcome under the disciplines. -/
structure SettleMeets (D : Discipline) (s : Store) (ctx : ExecutionContext)
    (outcome : RuntimeOutcome) : Prop where
  ended : D.unknownReviewed → outcome.kind ≠ .waiting → ¬s.OpsResolved ctx.runId →
    s.HasUnknown ctx.runId
  waits : D.unknownReviewed → outcome.kind = .waiting →
    waitingStatus outcome.interruptRefs = .needsReview →
    ∃ oid o, s.operations.get? oid = some o ∧ o.runId = ctx.runId ∧
      o.reviewedBy oid outcome.interruptRefs
  children : D.childrenFirst → outcome.kind ≠ .waiting → outcome.kind ≠ .final →
    s.OpsResolved ctx.runId → s.ChildrenEnded ctx.runId
  names : D.sourced → outcome.kind = .waiting → s.Names ctx.runId outcome.interruptRefs

/-- `settle` is its writes and, for a waiting outcome of a running run, the attempt to wake it. -/
theorem settle_eq_ok {readable : ArtifactId → OwnerId → Bool} {ctx : ExecutionContext}
    {outcome : RuntimeOutcome} (own : s.OwnReviews ctx.runId outcome.interruptRefs)
    (acts : D.scope.acts ctx.runId) (meets : s.Running ctx.runId → SettleMeets D s ctx outcome)
    (answers : outcome.kind = .waiting → s.Running ctx.runId → D.scope.answers ctx.runId ∧
      s.OwnWaits D ctx.runId outcome.interruptRefs)
    (h : settle s readable ctx outcome now = .ok s') :
    ∃ v, Writes D now s v ∧
      (outcome.kind = .waiting ∧ s.Running ctx.runId ∧ wake v ctx.runId now = .ok s' ∨
        ¬(outcome.kind = .waiting ∧ s.Running ctx.runId) ∧ v = s') := by
  simp only [settle, bind_eq_ok, require_eq_ok, Store.run_eq_ok, exists_const] at h
  obtain ⟨-, _, fence, run, hrun, t, hrecord, h⟩ := h
  obtain ⟨row, hrow, ⟨row', hrow', -, named, -⟩, status, -⟩ := Store.assertFence_eq_ok.mp fence
  cases hrun.symm.trans hrow
  cases hrun.symm.trans hrow'
  -- the row after the checkpoint is recorded differs in the checkpoint and the revision only
  have recorded : ∃ row, t.runs.get? ctx.runId = some row ∧ row.status = run.status ∧
      row.attemptId = run.attemptId ∧ Writes D now s t ∧ t.operations = s.operations ∧
      t.interactions = s.interactions ∧ t.waits = s.waits ∧
      (t.ChildrenEnded ctx.runId ↔ s.ChildrenEnded ctx.runId) := by
    unfold recordCheckpoint at hrecord
    split at hrecord
    · rename_i checkpoint _
      obtain ⟨-, -, rfl⟩ := Store.updateRun_eq_ok hrecord
      refine ⟨RunPatch.apply { checkpointRef := some checkpoint } run, ?_, rfl, rfl,
        (Write.runMoved hrun (.checkpointed checkpoint (status.imp_right And.right))).writes, rfl,
        rfl, rfl, ?_⟩
      · rw [Table.get?_modify_self, hrun]
        rfl
      · refine forall_congr' fun key => forall_congr' fun d => ?_
        simp only [Table.get?_modify]
        constructor
        · intro h child hdep hparent hchild
          split at h
          · exact h (RunPatch.apply { checkpointRef := some checkpoint } child) hdep hparent
              (by rw [hchild]; rfl)
          · exact h child hdep hparent hchild
        · intro h child hdep hparent hchild
          split at hchild
          · obtain ⟨row, hrow, rfl⟩ := Option.map_eq_some_iff.mp hchild
            exact h row hdep hparent hrow
          · exact h child hdep hparent hchild
    · cases hrecord
      exact ⟨run, hrun, rfl, rfl, .refl, rfl, rfl, rfl, Iff.rfl⟩
  obtain ⟨row, hrow, hstatus, hattempt, writes, operations, interactions, waits, ended⟩ := recorded
  rw [← hattempt] at named
  split at h
  · rename_i cancelling
    refine ⟨s', writes.trans ?_, .inr ⟨fun live => ?_, rfl⟩⟩
    · exact settleCancelling_writes hrow (hstatus.trans cancelling) named acts h
    · obtain ⟨r, hr, running⟩ := live.2
      cases hrun.symm.trans hr
      rw [running] at cancelling
      cases cancelling
  rename_i live
  have isRunning : run.status = .running := status.resolve_right fun e => live e.2
  have running : s.Running ctx.runId := ⟨run, hrun, isRunning⟩
  have meets := meets running
  have same : t.OpsResolved ctx.runId ↔ s.OpsResolved ctx.runId := by
    simp only [Store.OpsResolved, operations]
  have sameUnknown : t.HasUnknown ctx.runId ↔ s.HasUnknown ctx.runId := by
    simp only [Store.HasUnknown, operations]
  split at h
  · rename_i waiting
    obtain ⟨answers, ownWaits⟩ := answers waiting running
    obtain ⟨v, suspended, hwake⟩ := settleWaiting_eq_ok hrow (hstatus.trans isRunning) named acts
      (fun ref href oid o hrequest ho => own ref href oid o hrequest (operations ▸ ho))
      (fun d review => by
        rw [operations]
        exact meets.waits d waiting review)
      answers
      ⟨fun ref href wid w hrequest hw => ownWaits.answers ref href wid w hrequest (waits ▸ hw),
        fun d ref href wid w hrequest hw => ownWaits.sourced d ref href wid w hrequest (waits ▸ hw)⟩
      (fun d => by
        have names := meets.names d waiting
        exact ⟨interactions ▸ names.pending, waits ▸ names.waits, names.distinct⟩) h
    exact ⟨v, writes.trans suspended, .inl ⟨waiting, running, hwake⟩⟩
  · rename_i notWaiting
    refine ⟨s', writes.trans (settleEnded_writes hrow (hstatus.trans isRunning) named acts
      (fun d open' => ?_) (fun d notFinal resolved => ?_) h), .inr ⟨fun e => notWaiting e.1, rfl⟩⟩
    · exact sameUnknown.mpr (meets.ended d notWaiting fun r => open' (same.mpr r))
    · exact ended.mpr (meets.children d notWaiting notFinal (same.mp resolved))

theorem settle_writes {readable : ArtifactId → OwnerId → Bool} {ctx : ExecutionContext}
    {outcome : RuntimeOutcome} (own : s.OwnReviews ctx.runId outcome.interruptRefs)
    (acts : D.scope.acts ctx.runId) (meets : s.Running ctx.runId → SettleMeets D s ctx outcome)
    (answers : ∀ rid, D.scope.answers rid)
    (h : settle s readable ctx outcome now = .ok s') : Writes D now s s' := by
  obtain ⟨v, writes, ⟨-, -, hwake⟩ | ⟨-, rfl⟩⟩ := settle_eq_ok own acts meets
    (fun waiting running => ⟨answers _, fun _ _ _ _ _ _ => answers _, fun d =>
      ((meets running).names d waiting |>.ownWaits (answers _)).sourced d⟩) h
  · exact writes.trans (wake_writes hwake)
  · exact writes

end MiHarness

import MiHarness.Tools.Once

/-!
# Executions are authorized

The transaction that starts an operation makes its grant and consumes it.  What the grant is
bound to was compared with the policy and the resource by the last step of the same call, and
the first decision of the policy either let the call go on or put the operation to the user.
`GatewayWorld.Vetted` carries both decisions from the step that made them to the transaction,
whatever the others do in between.
-/

namespace MiHarness

open Library

variable {g : Installation} {c : Call} {s s' : Store} {now : Time} {input : Input} {D : Discipline}

/-! ## Approvals -/

/-- An interaction that has a resolution is not pending. -/
def Store.Concluded (s : Store) : Prop :=
  ∀ iid i, s.interactions.get? iid = some i → i.resolution.isSome → i.status.pending = false

theorem Store.Concluded.write (concluded : s.Concluded) (w : Write D now s s') : s'.Concluded := by
  intro iid i' hi' resolved
  cases w.interactionEffect hi' with
  | kept hi => exact concluded iid i' hi resolved
  | added _ _ _ _ unresolved =>
      rw [unresolved] at resolved
      cases resolved
  | moved hi move =>
      cases move with
      | bound _ pending =>
          have closed := concluded iid _ hi resolved
          rw [pending] at closed
          cases closed
      | resolved _ _ closed => exact closed
  | closed => rfl

theorem reachable_concluded {host : Host} {w : World} (h : (system host).Reachable w) :
    w.store.Concluded :=
  reachable_of_free_writes (fun _ _ h => by cases h) (fun _ _ _ _ concluded w => concluded.write w) h

theorem Interaction.resolved_of_approves {i : Interaction} (h : i.approves = true) :
    i.resolution.isSome := by
  rw [approves, Option.any_eq_true] at h
  obtain ⟨r, hr, -⟩ := h
  rw [hr]
  rfl

/-- The user has approved the operation, as it was bound by the request. -/
def Store.Approved (s : Store) (rid : RunId) (oid : OperationId) (binding : ApprovalBinding) : Prop :=
  ∃ iid i, s.interactions.get? iid = some i ∧ i.runId = rid ∧ i.requestKey = .approval oid ∧
    i.bindingRef = some binding ∧ i.approves = true

/-- An approval is never taken back. -/
theorem Store.Approved.write {rid : RunId} {oid : OperationId} {binding : ApprovalBinding}
    (concluded : s.Concluded) (approved : s.Approved rid oid binding) (w : Write D now s s') :
    s'.Approved rid oid binding := by
  obtain ⟨iid, i, hi, owner, key, bound, approves⟩ := approved
  have closed := concluded iid i hi (Interaction.resolved_of_approves approves)
  obtain ⟨i', hi'⟩ := w.interaction_stays hi
  cases w.interactionEffect hi' with
  | kept before =>
      cases hi.symm.trans before
      exact ⟨iid, i, hi', owner, key, bound, approves⟩
  | added absent => cases hi.symm.trans absent
  | moved before move =>
      cases hi.symm.trans before
      cases move with
      | bound _ pending => simp [pending, InteractionStatus.pending] at closed
      | resolved _ pending => simp [pending, InteractionStatus.pending] at closed
  | closed _ before pending =>
      cases hi.symm.trans before
      rw [closed] at pending
      cases pending

theorem Store.Approved.writes {rid : RunId} {oid : OperationId} {binding : ApprovalBinding}
    (concluded : s.Concluded) (approved : s.Approved rid oid binding) (w : Writes D now s s') :
    s'.Approved rid oid binding := by
  refine (w.invariant (I := fun t => t.Concluded ∧ t.Approved rid oid binding) (fun t t' h wr => ?_)
    ⟨concluded, approved⟩).2
  exact ⟨h.1.write wr, h.2.write h.1 wr⟩

/-! ## Bindings -/

/-- The binding is one of the operation. -/
structure Operation.Bound (oid : OperationId) (o : Operation) (binding : ApprovalBinding) : Prop where
  operation : binding.operationId = oid
  revision : binding.toolRevision = o.toolRevision
  args : binding.argsHash = o.argsHash
  fingerprint : binding.resourceFingerprint = o.resourceFingerprint

theorem Operation.Bound.later {oid : OperationId} {o o' : Operation} {binding : ApprovalBinding}
    (bound : o.Bound oid binding) (later : o.Later o') : o'.Bound oid binding where
  operation := bound.operation
  revision := bound.revision.trans later.toolRevision.symm
  args := bound.args.trans later.argsHash.symm
  fingerprint := bound.fingerprint.trans later.fingerprint.symm

theorem Operation.Bound.earlier {oid : OperationId} {o o' : Operation} {binding : ApprovalBinding}
    (bound : o'.Bound oid binding) (later : o.Later o') : o.Bound oid binding where
  operation := bound.operation
  revision := bound.revision.trans later.toolRevision
  args := bound.args.trans later.argsHash
  fingerprint := bound.fingerprint.trans later.fingerprint

/-- The binding that a call makes is one of its operation. -/
theorem Call.Sound.bound (sound : c.Sound g s) {oid : OperationId} {o : Operation}
    {fingerprint : Hash} {policyRevision : Nat} (target : c.phase.target = some oid)
    (held : c.phase.held = some o) (same : fingerprint = o.resourceFingerprint) :
    o.Bound oid (c.binding g oid fingerprint policyRevision now) := by
  obtain ⟨current, hcurrent, later⟩ := sound.held oid o target held
  obtain ⟨current', hcurrent', hmatches⟩ := sound.target oid target
  cases hcurrent.symm.trans hcurrent'
  have bound : current.Bound oid (c.binding g oid fingerprint policyRevision now) :=
    ⟨rfl, hmatches.revision.symm, hmatches.args.symm, same.trans later.fingerprint.symm⟩
  exact bound.earlier later

/-- The requests for approval name what they ask for. -/
def Store.Petitions (s : Store) : Prop :=
  ∀ iid i oid, s.interactions.get? iid = some i → i.requestKey = .approval oid →
    ∃ binding o, i.bindingRef = some binding ∧ s.operations.get? oid = some o ∧ o.Bound oid binding

/-- A write puts a question that it may put, or it was put before. -/
theorem Writes.interaction_from (w : Writes D now s s') {iid : InteractionId} {i' : Interaction}
    (h : s'.interactions.get? iid = some i') : D.scope.asks i'.requestKey ∨
      ∃ i, s.interactions.get? iid = some i ∧ i'.requestKey = i.requestKey ∧
        i'.bindingRef = i.bindingRef := by
  induction w generalizing i' with
  | refl => exact .inr ⟨i', h, rfl, rfl⟩
  | tail _ w ih =>
      cases w.interactionEffect h with
      | kept hi => exact ih hi
      | added _ _ _ _ _ asks => exact .inl asks
      | moved hi move =>
          have from' := ih hi
          cases move <;> exact from'
      | closed _ hi =>
          have from' := ih hi
          exact from'

/-- The transactions that no call makes put no operation to the user. -/
theorem Store.Petitions.outside {a : Action} (petitions : s.Petitions)
    (w : Writes (.outside g a) now s s') : s'.Petitions := by
  intro iid i' oid hi' key
  rcases w.interaction_from hi' with asks | ⟨i, hi, same, bound⟩
  · rw [key] at asks
    exact asks.elim
  · obtain ⟨binding, o, hbinding, ho, hbound⟩ := petitions iid i oid hi (same ▸ key)
    obtain ⟨o', ho', later⟩ := w.operation_later ho
    exact ⟨binding, o', bound.trans hbinding, ho', hbound.later later⟩

/-- The questions that are there after a turn. -/
theorem Call.Turn.interactions {phase : Phase} {progress : Progress} {events : List ToolEvent}
    (turn : c.Turn g s now input phase progress s' events) {iid : InteractionId} {i' : Interaction}
    (h : s'.interactions.get? iid = some i') : s.interactions.get? iid = some i' ∨
      (∀ oid, i'.requestKey ≠ .approval oid) ∨
      ∃ oid o binding, phase = .decided oid o binding .approval ∧ i'.requestKey = .approval oid ∧
        i'.bindingRef = some binding := by
  have asked : ∀ {oid o binding i t}, c.Asks s now input.fresh oid binding i t →
      t.interactions.get? iid = some i' → s.interactions.get? iid = some i' ∨
        (∀ oid, i'.requestKey ≠ .approval oid) ∨
        ∃ oid' o' binding', Phase.decided oid o binding .approval = .decided oid' o' binding' .approval ∧
          i'.requestKey = .approval oid' ∧ i'.bindingRef = some binding' := by
    rintro oid o binding i t (⟨-, -, -, -, rfl⟩ | ⟨iid₀, prepares⟩) h
    · exact .inl h
    · obtain ⟨-, ⟨-, -, -, rfl⟩ | ⟨-, rfl, rfl, interactions, hinsert, rfl⟩⟩ :=
        Store.prepareInteraction_eq_ok prepares
      · exact .inl h
      · replace h : interactions.get? iid = some i' := h
        rw [(Table.insert?_eq_some hinsert).2] at h
        split at h
        · cases h
          exact .inr (.inr ⟨oid, o, binding, rfl, rfl, rfl⟩)
        · exact .inl h
  cases turn with
  | registered prepares =>
      obtain ⟨-, ⟨-, rfl, -⟩ | ⟨-, rfl, rfl, operations, -, rfl⟩⟩ :=
        Store.prepareOperation_eq_ok prepares
      · exact .inl h
      · exact .inl h
  | asked _ asks => exact asked asks h
  | approved asks => exact asked asks h
  | unapproved asks => exact asked asks h
  | granted starts | died starts =>
      obtain ⟨_, _, _, _, _, _, _, _, _, rfl⟩ := startOperation_eq_ok starts
      exact .inl h
  | suspended suspends =>
      simp only [suspendExchange, bind_eq_ok, require_eq_ok, exists_const] at suspends
      obtain ⟨_, _, _, _, ⟨iid₀, i, t⟩, prepares, u, hupdate, rest⟩ := suspends
      cases rest
      obtain ⟨-, -, rfl⟩ := Store.updateOperation_eq_ok hupdate
      obtain ⟨-, ⟨-, -, -, rfl⟩ | ⟨-, rfl, rfl, interactions, hinsert, rfl⟩⟩ :=
        Store.prepareInteraction_eq_ok prepares
      · exact .inl h
      · replace h : interactions.get? iid = some i' := h
        rw [(Table.insert?_eq_some hinsert).2] at h
        split at h
        · cases h
          exact .inr (.inl fun _ h => by cases h)
        · exact .inl h
  | answered _ _ sends =>
      obtain ⟨_, _, _, rfl⟩ := sendExchange_eq_ok sends
      exact .inl h
  | closed finishes | finished finishes =>
      obtain ⟨_, _, _, _, _, rfl⟩ := finishOperation_eq_ok finishes
      exact .inl h
  | _ => exact .inl h

/-! ## Decisions -/

/-- The first decision of a call, which does not deny it. -/
def Call.Decides (g : Installation) (id : CallId) (c : Call) (oid : OperationId) (o : Operation)
    (decision : Decision) (e : GatewayWorld × GatewayAction) : Prop :=
  ∃ input fingerprint, e.2 = .turn id input ∧
    e.1.calls id = some { c with phase := .registered oid o fingerprint } ∧
    g.decide input.env e.1.base.store c.ctx c.spec e.1.base.now = .ok decision ∧
    decision.decision ≠ .deny

/-- The second look of a call at the policy and at the resource, which finds what the binding
says. -/
def Call.Rechecks (g : Installation) (id : CallId) (c : Call) (oid : OperationId) (o : Operation)
    (binding : ApprovalBinding) (e : GatewayWorld × GatewayAction) : Prop :=
  ∃ input decision, e.2 = .turn id input ∧
    e.1.calls id = some { c with phase := .cleared oid o binding } ∧
    g.decide input.env e.1.base.store c.ctx c.spec e.1.base.now = .ok decision ∧
    decision.decision ≠ .deny ∧ decision.policyRevision = binding.policyRevision ∧
    g.resources input.env c.ctx c.spec c.args = .ok binding.resourceFingerprint

/-- The action is one of the call. -/
def GatewayAction.Of (id : CallId) : GatewayAction → Prop
  | .transact _ => False
  | .enter id' _ _ _ _ _ | .turn id' _ | .leave id' => id' = id

/-- The call was let go on by its first decision, or by the user. -/
def Call.Permitted (g : Installation) (past : List (GatewayWorld × GatewayAction)) (s : Store)
    (id : CallId) (c : Call) (oid : OperationId) (o : Operation) (binding : ApprovalBinding) : Prop :=
  ∃ e ∈ past, ∃ decision, c.Decides g id oid o decision e ∧
    (decision.decision = .allow → binding.policyRevision = decision.policyRevision) ∧
    (decision.decision = .approval → s.Approved c.ctx.runId oid binding)

/-- The last step of the call was its second look. -/
def Call.Rechecked (g : Installation) (past : List (GatewayWorld × GatewayAction)) (id : CallId)
    (c : Call) (oid : OperationId) (o : Operation) (binding : ApprovalBinding) : Prop :=
  ∃ later e earlier, past = later ++ e :: earlier ∧ c.Rechecks g id oid o binding e ∧
    ∀ e' ∈ later, ¬e'.2.Of id

/-- What has been decided about a call that has not started its operation. -/
structure Call.Vetted (g : Installation) (past : List (GatewayWorld × GatewayAction)) (s : Store)
    (id : CallId) (c : Call) : Prop where
  decided : ∀ oid o binding verdict, c.phase = .decided oid o binding verdict →
    o.Bound oid binding ∧ ∃ e ∈ past, ∃ decision, c.Decides g id oid o decision e ∧
      decision.decision = verdict ∧ binding.policyRevision = decision.policyRevision
  cleared : ∀ oid o binding, c.phase = .cleared oid o binding →
    o.Bound oid binding ∧ c.Permitted g past s id oid o binding
  rechecked : ∀ oid o binding policyRevision, c.phase = .rechecked oid o binding policyRevision →
    o.Bound oid binding ∧ c.Permitted g past s id oid o binding ∧
      c.Rechecked g past id oid o binding

/-- A call in a phase in which nothing has been decided. -/
theorem Call.Vetted.undecided {past : List (GatewayWorld × GatewayAction)} {id : CallId}
    (h : ∀ oid o binding verdict, c.phase ≠ .decided oid o binding verdict)
    (h' : ∀ oid o binding, c.phase ≠ .cleared oid o binding)
    (h'' : ∀ oid o binding policyRevision, c.phase ≠ .rechecked oid o binding policyRevision) :
    c.Vetted g past s id :=
  ⟨fun _ _ _ _ e => absurd e (h _ _ _ _), fun _ _ _ e => absurd e (h' _ _ _),
    fun _ _ _ _ e => absurd e (h'' _ _ _ _)⟩

theorem Call.Permitted.writes {past : List (GatewayWorld × GatewayAction)} {id : CallId}
    {oid : OperationId} {o : Operation} {binding : ApprovalBinding}
    (permitted : c.Permitted g past s id oid o binding) (concluded : s.Concluded)
    (w : Writes D now s s') (e : GatewayWorld × GatewayAction) :
    c.Permitted g (e :: past) s' id oid o binding := by
  obtain ⟨e₀, he₀, decision, decides, allowed, approved⟩ := permitted
  exact ⟨e₀, List.mem_cons_of_mem _ he₀, decision, decides, allowed,
    fun h => (approved h).writes concluded w⟩

/-- A step of the others changes nothing of what has been decided about a call. -/
theorem Call.Vetted.others {past : List (GatewayWorld × GatewayAction)} {id : CallId}
    (vetted : c.Vetted g past s id) (concluded : s.Concluded) (w : Writes D now s s')
    {e : GatewayWorld × GatewayAction} (other : ¬e.2.Of id) : c.Vetted g (e :: past) s' id where
  decided oid o binding verdict phase := by
    obtain ⟨bound, e₀, he₀, decided⟩ := vetted.decided oid o binding verdict phase
    exact ⟨bound, e₀, List.mem_cons_of_mem _ he₀, decided⟩
  cleared oid o binding phase := by
    obtain ⟨bound, permitted⟩ := vetted.cleared oid o binding phase
    exact ⟨bound, permitted.writes concluded w e⟩
  rechecked oid o binding policyRevision phase := by
    obtain ⟨bound, permitted, later, e₀, earlier, rfl, rechecks, others⟩ :=
      vetted.rechecked oid o binding policyRevision phase
    refine ⟨bound, permitted.writes concluded w e, e :: later, e₀, earlier, rfl, rechecks, ?_⟩
    intro e' he'
    rcases List.mem_cons.mp he' with rfl | he'
    · exact other
    · exact others e' he'

theorem Call.Asks.approved {oid : OperationId} {binding saved : ApprovalBinding} {i : Interaction}
    (asks : c.Asks s now input.fresh oid binding i s') (hsaved : i.bindingRef = some saved)
    (approves : i.approves = true) (petitions : s.Petitions) :
    s'.Approved c.ctx.runId oid saved ∧
      ∃ o, s.operations.get? oid = some o ∧ o.Bound oid saved := by
  have found : ∀ iid, s.interactions.get? iid = some i → i.runId = c.ctx.runId →
      i.requestKey = .approval oid → s.Approved c.ctx.runId oid saved ∧
        ∃ o, s.operations.get? oid = some o ∧ o.Bound oid saved := by
    intro iid hi owner key
    obtain ⟨binding', o, hbinding', ho, bound⟩ := petitions iid i oid hi key
    cases hsaved.symm.trans hbinding'
    exact ⟨⟨iid, i, hi, owner, key, hsaved, approves⟩, o, ho, bound⟩
  rcases asks with ⟨iid, hi, owner, key, rfl⟩ | ⟨iid, prepares⟩
  · exact found iid hi owner key
  · obtain ⟨-, ⟨hi, owner, key, rfl⟩ | ⟨-, rfl, rfl, -⟩⟩ := Store.prepareInteraction_eq_ok prepares
    · exact found iid hi owner key
    · cases approves

/-- What a turn of a call leaves decided about it. -/
theorem Call.Turn.vetted {past : List (GatewayWorld × GatewayAction)} {id : CallId} {phase : Phase}
    {events : List ToolEvent} {w : GatewayWorld} (hc : w.calls id = some c)
    (sound : c.Sound g w.base.store) (petitions : w.base.store.Petitions)
    (concluded : w.base.store.Concluded) (writes : Writes D w.base.now w.base.store s')
    (vetted : c.Vetted g past w.base.store id)
    (turn : c.Turn g w.base.store w.base.now input c.phase (.next phase) s' events) :
    ({ c with phase } : Call).Vetted g ((w, .turn id input) :: past) s' id := by
  have before : ∀ p, c.phase = p → w.calls id = some { c with phase := p } := by
    rintro p rfl
    exact hc
  generalize hphase : c.phase = phase' at turn
  cases turn with
  | @decided oid o fingerprint decision decided permitted same =>
      refine ⟨fun oid' o' binding verdict h => ?_, fun _ _ _ h => (by cases h),
        fun _ _ _ _ h => (by cases h)⟩
      cases h
      refine ⟨sound.bound (by rw [hphase]; rfl) (by rw [hphase]; rfl) same, _,
        List.mem_cons_self .., decision, ?_, rfl, rfl⟩
      exact ⟨input, fingerprint, rfl, before _ hphase, decided, permitted⟩
  | @approved oid o binding saved i _ asks hsaved approves =>
      obtain ⟨-, e, he, decision, decides, verdict, -⟩ := vetted.decided oid o binding .approval hphase
      obtain ⟨approved, current, hcurrent, bound⟩ := asks.approved hsaved approves petitions
      refine ⟨fun _ _ _ _ h => (by cases h), fun oid' o' binding' h => ?_,
        fun _ _ _ _ h => (by cases h)⟩
      cases h
      obtain ⟨current', hcurrent', later⟩ := sound.held oid o (by rw [hphase]; rfl) (by rw [hphase]; rfl)
      cases hcurrent.symm.trans hcurrent'
      refine ⟨bound.earlier later, e, List.mem_cons_of_mem _ he, decision, decides, fun h => ?_,
        fun _ => approved⟩
      cases verdict.symm.trans h
  | @allowed oid o binding verdict plain =>
      obtain ⟨bound, e, he, decision, decides, same, revision⟩ :=
        vetted.decided oid o binding verdict hphase
      refine ⟨fun _ _ _ _ h => (by cases h), fun oid' o' binding' h => ?_,
        fun _ _ _ _ h => (by cases h)⟩
      cases h
      exact ⟨bound, e, List.mem_cons_of_mem _ he, decision, decides, fun _ => revision,
        fun h => absurd (same.symm.trans h) plain⟩
  | @rechecked oid o binding current ordinary decided permitted revision resources =>
      obtain ⟨bound, cleared⟩ := vetted.cleared oid o binding hphase
      refine ⟨fun _ _ _ _ h => (by cases h), fun _ _ _ h => (by cases h),
        fun oid' o' binding' policyRevision h => ?_⟩
      cases h
      refine ⟨bound, cleared.writes concluded writes _, [], _, past, rfl, ?_, fun _ h => (by cases h)⟩
      exact ⟨input, current, rfl, before _ hphase, decided, permitted, revision,
        bound.fingerprint ▸ resources⟩
  | pending executes =>
      refine .undecided (fun _ _ _ _ h => ?_) (fun _ _ _ h => ?_) fun _ _ _ _ h => ?_ <;>
        cases (show phase = _ from h) <;> cases executes
  | _ =>
      exact .undecided (fun _ _ _ _ h => by cases h) (fun _ _ _ h => by cases h)
        (fun _ _ _ _ h => by cases h)

/-- What has been decided about the calls, and what the user has been asked. -/
structure GatewayWorld.Vetted (g : Installation) (past : List (GatewayWorld × GatewayAction))
    (w : GatewayWorld) : Prop where
  petitions : w.base.store.Petitions
  calls : ∀ id c, w.calls id = some c → c.Vetted g past w.base.store id

theorem GatewayWorld.Vetted.step {past : List (GatewayWorld × GatewayAction)} {w w' : GatewayWorld}
    {a : GatewayAction} (reach : (system g.host).Reachable w.base) (sound : w.Sound g)
    (vetted : w.Vetted g past) (step : w.Stepped g a w') : w'.Vetted g ((w, a) :: past) := by
  have writes := step.writes reach sound
  have concluded := reachable_concluded reach
  have others : ∀ id c, w.calls id = some c → ¬a.Of id →
      c.Vetted g ((w, a) :: past) w'.base.store id :=
    fun id c hc other => (vetted.calls id c hc).others concluded writes other
  cases step with
  | transacted outside hnext =>
      have writes := (step_writes reach (Discipline.outside_meets (g := g) outside) hnext).2
      exact ⟨vetted.petitions.outside writes, fun id c hc => others id c hc not_false⟩
  | @declined id _ _ _ _ _ free =>
      refine ⟨vetted.petitions, fun id' c hc => others id' c hc fun same => ?_⟩
      cases show id = id' from same
      rw [free] at hc
      cases hc
  | @entered id =>
      refine ⟨vetted.petitions, fun id' c hc => ?_⟩
      rcases withCall_eq_some hc with ⟨-, h⟩ | ⟨other, h⟩
      · cases h
        exact .undecided (fun _ _ _ _ h => by cases h) (fun _ _ _ h => by cases h)
          (fun _ _ _ _ h => by cases h)
      · exact others id' c h fun same => other same.symm
  | @turned id input c progress store events hc turn =>
      refine ⟨fun iid i' oid hi' key => ?_, fun id' c' hc' => ?_⟩
      · rcases turn.interactions hi' with hi | unasked | ⟨oid', o, binding, phase, key', bound⟩
        · obtain ⟨binding, o, hbinding, ho, hbound⟩ := vetted.petitions iid i' oid hi key
          obtain ⟨o', ho', later⟩ := writes.operation_later ho
          exact ⟨binding, o', hbinding, ho', hbound.later later⟩
        · exact absurd key (unasked oid)
        · cases key.symm.trans key'
          obtain ⟨hbound, -⟩ := (vetted.calls id c hc).decided oid o binding .approval phase
          obtain ⟨current, hcurrent, later⟩ :=
            (sound id c hc).held oid o (by rw [phase]; rfl) (by rw [phase]; rfl)
          obtain ⟨o', ho', later'⟩ := writes.operation_later hcurrent
          exact ⟨binding, o', bound, ho', hbound.later (later.trans later')⟩
      · rcases withCall_eq_some hc' with ⟨rfl, h⟩ | ⟨other, h⟩
        · cases progress with
          | next phase =>
              cases h
              exact turn.vetted hc (sound id' c hc) vetted.petitions concluded writes
                (vetted.calls id' c hc)
          | done | gone => cases h
        · exact others id' c' h fun same => other same.symm
  | @left id =>
      refine ⟨vetted.petitions, fun id' c hc => ?_⟩
      rcases withCall_eq_some hc with ⟨-, h⟩ | ⟨other, h⟩
      · cases h
      · exact others id' c h fun same => other same.symm

theorem gateway_vetted {past : List (GatewayWorld × GatewayAction)} {w : GatewayWorld}
    (h : (gatewaySystem g).History past w) : w.Vetted g past := by
  refine h.invariant (I := fun past w => w.Vetted g past) (fun w start => ?_)
    fun past w a w' hw vetted step => ?_
  · obtain ⟨store, calls, -⟩ := start
    constructor
    · intro iid i oid hi
      rw [store] at hi
      cases hi
    · intro id c hc
      rw [calls] at hc
      cases hc
  · obtain ⟨base, sound⟩ := gateway_base hw
    exact vetted.step base sound (GatewayWorld.next_stepped step)

/-! ## Grants -/

/-- How often a grant may still be consumed, and when it was. -/
def Grant.spending (grant : Grant) : Nat × Option Time := (grant.remaining, grant.consumedAt)

theorem Grant.spending_revoke (rid : RunId) (except : List GrantId) (gid : GrantId) (grant : Grant) :
    (grant.revoke rid except gid).spending = grant.spending := by
  rw [revoke]
  split <;> rfl

/-- A write that starts nothing consumes no grant. -/
theorem Write.spending (w : Write D now s s') (idle : ¬D.scope.starts) (gid : GrantId) :
    (s'.grants.get? gid).map Grant.spending = (s.grants.get? gid).map Grant.spending := by
  cases w with
  | grantAdded _ _ starts => exact absurd starts idle
  | grantConsumed _ _ starts => exact absurd starts idle
  | grantsRevoked =>
      rw [Store.revokeGrants, Table.get?_mapRows, Option.map_map]
      exact congrFun (congrArg Option.map (funext fun _ => Grant.spending_revoke ..)) _
  | finished =>
      rw [Table.get?_mapRows, Option.map_map]
      exact congrFun (congrArg Option.map (funext fun _ => Grant.spending_revoke ..)) _
  | _ => rfl

theorem Writes.spending (w : Writes D now s s') (idle : ¬D.scope.starts) (gid : GrantId) :
    (s'.grants.get? gid).map Grant.spending = (s.grants.get? gid).map Grant.spending := by
  induction w with
  | refl => rfl
  | tail _ w ih => exact (w.spending idle gid).trans ih

/-- One fenced transaction makes a grant and consumes it. -/
structure Store.Consumes (s : Store) (ctx : ExecutionContext) (now : Time) (gid : GrantId)
    (grant : Grant) (s' : Store) : Prop where
  fence : s.assertFence ctx now = .ok ()
  unused : s.grants.get? gid = none
  unconsumed : grant.spending = (1, none)
  unrevoked : grant.revoked = false
  owner : grant.ownerId = ctx.ownerId ∧ grant.runId = ctx.runId
  unexpired : now < grant.binding.expiresAt
  consumed : s'.grants.get? gid = some { grant with remaining := 0, consumedAt := some now }
  others : ∀ gid', gid' ≠ gid → s'.grants.get? gid' = s.grants.get? gid'
  started : ∃ o, s'.operations.get? grant.operationId = some o ∧ o.state = .running ∧
    o.grantId = some gid

theorem startOperation_consumes {ctx : ExecutionContext} {oid : OperationId} {o : Operation}
    {gid : GrantId} {binding : ApprovalBinding} {policyRevision : Nat}
    (h : startOperation s ctx oid o gid binding policyRevision now = .ok s') :
    s.Consumes ctx now gid
      { operationId := oid, ownerId := ctx.ownerId, runId := ctx.runId, binding } s' := by
  obtain ⟨current, grants, ledger, hcurrent, -, fence, hinsert, unexpired, -, rfl⟩ :=
    startOperation_eq_ok h
  obtain ⟨unused, rows⟩ := Table.insert?_eq_some hinsert
  refine ⟨fence, unused, rfl, rfl, ⟨rfl, rfl⟩, unexpired, ?_, fun gid' other => ?_, ?_⟩
  · show (grants.modify gid _).get? gid = _
    rw [Table.get?_modify_self, rows, if_pos rfl]
    rfl
  · show (grants.modify gid _).get? gid' = _
    rw [Table.get?_modify_ne _ _ other, rows, if_neg other]
  · refine ⟨(Store.startPatch ctx gid).apply
      (OperationPatch.apply { state := some .authorized } current), ?_, rfl, rfl⟩
    show ((s.operations.modify oid _).modify oid _).get? oid = _
    rw [Table.get?_modify_self, Table.get?_modify_self, hcurrent]
    rfl

/-- A turn leaves the grants alone, or starts an operation. -/
theorem Call.Turn.grants {phase : Phase} {progress : Progress} {events : List ToolEvent}
    (turn : c.Turn g s now input phase progress s' events) : s'.grants = s.grants ∨
      ∃ gid grant, s.Consumes c.ctx now gid grant s' := by
  have asked : ∀ {oid binding i t}, c.Asks s now input.fresh oid binding i t →
      t.grants = s.grants := by
    intro oid binding i t asks
    obtain ⟨_, rfl⟩ := asks.operations
    rfl
  cases turn with
  | registered prepares =>
      obtain ⟨-, ⟨-, rfl, -⟩ | ⟨-, rfl, rfl, operations, -, rfl⟩⟩ :=
        Store.prepareOperation_eq_ok prepares
      · exact .inl rfl
      · exact .inl rfl
  | asked _ asks => exact .inl (asked asks)
  | approved asks => exact .inl (asked asks)
  | unapproved asks => exact .inl (asked asks)
  | granted starts => exact .inr ⟨_, _, startOperation_consumes starts⟩
  | died starts => exact .inr ⟨_, _, startOperation_consumes starts⟩
  | suspended suspends =>
      obtain ⟨_, _, _, -, -, -, -, -, -, rfl⟩ := suspendExchange_eq_ok suspends
      exact .inl rfl
  | answered _ _ sends =>
      obtain ⟨_, -, -, rfl⟩ := sendExchange_eq_ok sends
      exact .inl rfl
  | closed finishes =>
      obtain ⟨_, _, _, -, -, rfl⟩ := finishOperation_eq_ok finishes
      exact .inl rfl
  | finished finishes =>
      obtain ⟨_, _, _, -, -, rfl⟩ := finishOperation_eq_ok finishes
      exact .inl rfl
  | _ => exact .inl rfl

/-- Every grant that a transaction leaves has been consumed. -/
def Store.Spent (s : Store) : Prop :=
  ∀ gid grant, s.grants.get? gid = some grant → grant.remaining = 0 ∧ grant.consumedAt.isSome

theorem Store.Spent.kept {gid : GrantId} {grant' : Grant} (spent : s.Spent)
    (same : (s'.grants.get? gid).map Grant.spending = (s.grants.get? gid).map Grant.spending)
    (h : s'.grants.get? gid = some grant') : grant'.remaining = 0 ∧ grant'.consumedAt.isSome := by
  rw [h] at same
  obtain ⟨grant, hgrant, equal⟩ := Option.map_eq_some_iff.mp same.symm
  obtain ⟨remaining, consumed⟩ := Prod.mk.inj equal
  rw [← remaining, ← consumed]
  exact spent gid grant hgrant

/-- What a step does to the grants. -/
theorem GatewayWorld.Stepped.grants {w w' : GatewayWorld} {a : GatewayAction}
    (reach : (system g.host).Reachable w.base) (step : w.Stepped g a w') :
    (∀ gid, (w'.base.store.grants.get? gid).map Grant.spending =
      (w.base.store.grants.get? gid).map Grant.spending) ∨
      ∃ ctx gid grant, w.base.store.Consumes ctx w.base.now gid grant w'.base.store := by
  cases step with
  | transacted outside hnext =>
      have writes := (step_writes reach (Discipline.outside_meets (g := g) outside) hnext).2
      exact .inl fun gid => writes.spending id gid
  | turned _ turn =>
      rcases turn.grants with same | ⟨gid, grant, consumes⟩
      · exact .inl fun gid => by rw [same]
      · exact .inr ⟨_, gid, grant, consumes⟩
  | _ => exact .inl fun _ => rfl

theorem gateway_spent {w : GatewayWorld} (h : (gatewaySystem g).Reachable w) :
    w.base.store.Spent := by
  refine h.invariant (I := fun w => w.base.store.Spent) (fun w start => ?_)
    fun w a w' hw spent step => ?_
  · intro gid grant hgrant
    rw [start.1] at hgrant
    cases hgrant
  · intro gid grant' hgrant'
    rcases (GatewayWorld.next_stepped step).grants (gateway_base hw).1 with
      same | ⟨_, gid₀, grant, consumes⟩
    · exact spent.kept (same gid) hgrant'
    · by_cases new : gid = gid₀
      · cases (new ▸ consumes.consumed).symm.trans hgrant'
        exact ⟨rfl, rfl⟩
      · exact spent gid grant' (consumes.others gid new ▸ hgrant')

/-! ## Invocations -/

/-- The executor of a tool that does more than wait is invoked when its operation starts. -/
theorem Call.Turn.granted_of_invoked {phase : Phase} {progress : Progress} {oid : OperationId}
    {key : OperationKey} {spec : ToolSpec} (sound : c.Sound g s)
    (turn : c.Turn g s now input phase progress s' [.invoked oid key spec])
    (ordinary : spec.id.waits = false) : key = c.key ∧ spec = c.spec ∧
      ∃ o binding policyRevision, phase = .rechecked oid o binding policyRevision ∧
        startOperation s c.ctx oid o input.fresh binding policyRevision now = .ok s' := by
  cases turn with
  | granted starts => exact ⟨rfl, rfl, _, _, _, rfl, starts⟩
  | begun waits =>
      obtain ⟨version, registered⟩ := sound.spec
      rw [(g.keyed _ _ _ registered).1, waits] at ordinary
      cases ordinary

/-- Authorized execution.  A step invokes the executor of an ordinary tool only with the fenced
transaction that makes the grant of the operation and consumes it; the grant is bound to the
operation as the last step of the same call has found the policy and the resource; and where
the first decision asks for an approval, the user has approved the operation under that binding.
No step consumes a grant that was there before. -/
theorem authorized {past : List (GatewayWorld × GatewayAction)} {w w' : GatewayWorld}
    {a : GatewayAction} (h : (gatewaySystem g).History past w)
    (step : (gatewaySystem g).step w a w') :
    (∀ oid key spec, w'.trace = .invoked oid key spec :: w.trace → spec.id.waits = false →
      ∃ id input c o gid binding, a = .turn id input ∧ w.calls id = some c ∧ c.key = key ∧
        c.spec = spec ∧ w.base.store.operations.get? oid = some o ∧ c.Matches g o ∧
        w.base.store.Consumes c.ctx w.base.now gid
          { operationId := oid, ownerId := c.ctx.ownerId, runId := c.ctx.runId, binding }
          w'.base.store ∧
        o.Bound oid binding ∧ c.Rechecked g past id oid o binding ∧
        c.Permitted g past w.base.store id oid o binding) ∧
    ∀ gid grant, w.base.store.grants.get? gid = some grant →
      grant.remaining = 0 ∧ grant.consumedAt.isSome ∧
        ∃ grant', w'.base.store.grants.get? gid = some grant' ∧ grant'.spending = grant.spending := by
  obtain ⟨base, sound⟩ := gateway_base h.reachable
  have vetted := gateway_vetted h
  have stepped := GatewayWorld.next_stepped step
  refine ⟨fun oid key spec trace ordinary => ?_, fun gid grant hgrant => ?_⟩
  · cases stepped with
    | transacted =>
        replace trace : _ ++ w.trace = [.invoked oid key spec] ++ w.trace := trace
        have event := List.append_cancel_right trace
        obtain ⟨_, _, h, -⟩ := Action.mem_attested (event ▸ List.mem_singleton_self _)
        cases h
    | @turned id input c progress store events hc turn =>
        replace trace : events ++ w.trace = [.invoked oid key spec] ++ w.trace := trace
        obtain rfl := List.append_cancel_right trace
        have knows := sound id c hc
        obtain ⟨rfl, rfl, o, binding, revision, phase, starts⟩ :=
          turn.granted_of_invoked knows ordinary
        obtain ⟨ho, -, -⟩ := knows.starts phase starts
        obtain ⟨bound, permitted, rechecked⟩ :=
          (vetted.calls id c hc).rechecked oid o binding revision phase
        obtain ⟨o', ho', hmatches⟩ := knows.target oid (by rw [phase]; rfl)
        cases ho.symm.trans ho'
        exact ⟨id, input, c, o, input.fresh, binding, rfl, hc, rfl, rfl, ho, hmatches,
          startOperation_consumes starts, bound, rechecked, permitted⟩
    | _ => exact absurd trace.symm (List.cons_ne_self _ _)
  · obtain ⟨remaining, consumed⟩ := gateway_spent h.reachable gid grant hgrant
    refine ⟨remaining, consumed, ?_⟩
    rcases stepped.grants base with same | ⟨_, gid₀, _, consumes⟩
    · have same := same gid
      rw [hgrant] at same
      exact Option.map_eq_some_iff.mp same
    · have other : gid ≠ gid₀ := by
        rintro rfl
        cases consumes.unused.symm.trans hgrant
      exact ⟨grant, by rw [consumes.others gid other, hgrant], rfl⟩

namespace Sample

/-- The policy by now asks for an approval of every write outside. -/
def cautious : Surroundings :=
  { surroundings with
    layers := { layers with globalPolicy := some { approvalEffects := some {.externalWrite} } } }

def consulting (phases : Nat) : List GatewayAction :=
  List.replicate phases (.turn 1 { env := cautious, fresh := 100 })

/-- What the user is asked to approve. -/
def petition : ApprovalBinding :=
  ⟨100, "1", "args", callText (.named "mcp") "args", 1000001, 900000⟩

/-- The run waits for the approval, the user gives it, and the call is made again. -/
def approved : List GatewayAction :=
  [.transact (.settle machine (context 20 1)
      { kind := .waiting, runId := 10, inputRevision := 2
        checkpointRef := some ⟨5, 1, .langchainV1⟩
        interruptRefs := [⟨⟨5, 1, 0, .user 100⟩, ⟨5, 1, .langchainV1⟩⟩] }),
    .transact (.respond 1 100 ⟨2, ⟨"approve", some .approveOnce⟩, some petition⟩),
    .transact (Action.claim ⟨1, 1⟩ 21),
    .enter 1 (context 21 2) ⟨10, 1, 1⟩ (.named "mcp") "args" prepared]

end Sample

/-- The user approves the tool of run `10`, and the next attempt invokes it. -/
theorem authorized_approved : ∃ (w w' : GatewayWorld) (past : List (GatewayWorld × GatewayAction))
    (id : CallId) (c : Call) (o : Operation) (gid : GrantId) (binding : ApprovalBinding),
    ((w.base.store.interactions.get? 100).any fun i => i.approves) = true ∧
    w.base.store.Consumes c.ctx w.base.now gid
      { operationId := 100, ownerId := c.ctx.ownerId, runId := c.ctx.runId, binding }
      w'.base.store ∧
    o.Bound 100 binding ∧ c.Permitted Sample.tools past w.base.store id 100 o binding := by
  let next := GatewayWorld.next Sample.tools
  let turn : GatewayAction := .turn 1 { env := Sample.cautious, fresh := 100 }
  let event : ToolEvent :=
    .invoked 100 ⟨10, 1, 1⟩ ⟨.named "mcp", "1", "builtin", .externalWrite, [], true⟩
  have run : (System.runs next Sample.gatewayStart (Sample.called ++ Sample.consulting 3 ++
      Sample.approved ++ Sample.consulting 4)).any (fun w =>
        ((w.base.store.interactions.get? 100).any fun i => i.approves) &&
        (next w turn).any fun w' => decide (w'.trace = event :: w.trace)) = true := by
    decide +kernel
  simp only [Option.any_eq_true, Bool.and_eq_true, decide_eq_true_eq] at run
  obtain ⟨w, hw, ⟨i, hi, approves⟩, w', step, trace⟩ := run
  have start : (gatewaySystem Sample.tools).History [] Sample.gatewayStart := .init ⟨rfl, rfl, rfl⟩
  obtain ⟨past, history⟩ := System.History.runs start hw
  obtain ⟨id, _, c, o, gid, binding, -, -, -, -, -, -, consumes, bound, -, permitted⟩ :=
    (authorized history step).1 _ _ _ trace rfl
  exact ⟨w, w', past, id, c, o, gid, binding, by rw [hi]; exact approves, consumes, bound, permitted⟩

end MiHarness

import MiHarness.Library.Trace
import MiHarness.Tools.Calls

/-!
# An executor is invoked once

The executor of a tool with effects is invoked at most once for an operation, since only an
operation that has not started is started, and one that has started becomes unstarted again only
by `recover`, for a tool that reads, and by `reconcile`, on evidence that it did not start.
-/

namespace MiHarness

open Library

variable {g : Installation} {c : Call} {s s' : Store} {now : Time} {input : Input}

/-- The tool of the operation does more than read. -/
def Installation.Effectful (g : Installation) (o : Operation) : Prop :=
  ∀ spec, g.host.registry o.toolId o.toolRevision = some spec → spec.effect ≠ .read

theorem Operation.Later.effectful {o o' : Operation} (later : o.Later o')
    (h : g.Effectful o') : g.Effectful o := by
  intro spec registered
  rw [← later.tool, ← later.toolRevision] at registered
  exact h spec registered

/-- The executor of a tool that does more than read is invoked for the operation. -/
def ToolEvent.Invokes (oid : OperationId) : ToolEvent → Prop
  | .invoked oid' _ spec => oid' = oid ∧ spec.effect ≠ .read
  | _ => False

def ToolEvent.Confirms (oid : OperationId) : ToolEvent → Prop
  | .confirmed oid' _ => oid' = oid
  | _ => False

/-! ## Transactions that no call makes -/

/-- The user confirms with the action that the operation was not executed. -/
def Action.Confirms (a : Action) (oid : OperationId) : Prop :=
  ∃ machine owner request, a = .reconcile machine owner oid request ∧
    request.decision = .confirmNotExecuted

/-- The questions that no call asks. -/
def RequestKey.outside : RequestKey → Prop
  | .approval _ | .mcp _ _ _ => False
  | _ => True

/-- What a transaction that no call makes can be about. -/
def Discipline.outside (g : Installation) (a : Action) : Discipline where
  scope :=
    { starts := False
      repeats := fun tool version => ∃ spec, g.host.registry tool version = some spec ∧
        spec.effect = .read
      confirms := a.Confirms
      registers := fun _ => False
      asks := RequestKey.outside
      exchanges := False }

theorem Discipline.outside_meets {a : Action} (outside : a.outside = true) :
    (Discipline.outside g a).Meets g.host s now a where
  scope :=
    { worker := fun _ _ => trivial
      recover := fun _ _ _ _ => trivial
      starts := fun _ _ _ _ _ _ h => by subst h; cases outside
      repeats := fun _ _ spec registered reads => ⟨spec, registered, reads⟩
      confirms := fun machine owner _ request h confirms => ⟨machine, owner, request, h, confirms⟩
      registers := fun _ _ _ h => by subst h; cases outside
      asks := fun _ request _ h => by
        subst h
        obtain ⟨key, _⟩ := request
        cases key with
        | approval | mcp => cases outside
        | input | modelSelection => trivial
      suspends := fun _ _ _ _ _ h => by subst h; cases outside
      sends := fun _ _ _ _ h => by subst h; cases outside
      takes := fun _ _ _ _ _ _ _ _ _ _ _ => trivial
      answers := fun _ _ => trivial
      revises := fun _ _ _ _ _ => trivial }
  cancel _ _ _ _ := ⟨not_false, False.elim⟩
  settle _ _ _ _ _ := ⟨False.elim, False.elim, False.elim, False.elim⟩
  reconcile _ _ _ _ _ := False.elim
  delegate _ _ _ _ _ _ := False.elim

/-- An operation that has not started had not before, or the user has confirmed that it was not
executed. -/
theorem Write.unstarted {a : Action} (w : Write (.outside g a) now s s') {oid : OperationId}
    {o' : Operation} (ho' : s'.operations.get? oid = some o') (effectful : g.Effectful o')
    (unstarted : o'.state.unstarted = true) :
    ∃ o, s.operations.get? oid = some o ∧ o.Later o' ∧ (o.state.unstarted = true ∨ a.Confirms oid) := by
  cases w.operationEffect ho' with
  | kept ho => exact ⟨o', ho, .refl o', .inl unstarted⟩
  | added _ _ _ _ registers => exact registers.elim
  | @moved o patch ho move =>
      refine ⟨o, ho, .apply patch o, ?_⟩
      cases hstate : patch.state with
      | none =>
          have same : (patch.apply o).state = o.state := by simp [OperationPatch.apply, hstate]
          exact .inl (same ▸ unstarted)
      | some state =>
          have new : (patch.apply o).state = state := by simp [OperationPatch.apply, hstate]
          rw [new] at unstarted
          cases move with
          | stepped _ starts unprepared =>
              cases state with
              | prepared => exact absurd hstate unprepared
              | authorized => exact (starts ⟨_, hstate, .inl rfl⟩).2.elim
              | _ => cases unstarted
          | lost _ _ _ _ _ _ reads =>
              cases state with
              | prepared =>
                  obtain ⟨spec, registered, read⟩ := reads hstate
                  exact absurd read (effectful spec registered)
              | authorized => simp_all
              | _ => cases unstarted
          | reconciled _ _ _ _ target _ confirms =>
              rcases target with h | h
              · cases hstate.symm.trans h
                cases unstarted
              · exact .inr (confirms h).2
          | accepted _ _ _ h => cases hstate.symm.trans h
  | @released o _ patch ho _ _ _ target _ confirms =>
      refine ⟨o, ho, .apply patch o, ?_⟩
      rcases target with h | h
      · have new : (patch.apply o).state = .succeeded := by simp [OperationPatch.apply, h]
        rw [new] at unstarted
        cases unstarted
      · exact .inr (confirms h).2
  | closed => cases unstarted

/-- Transactions that no call makes register no operation. -/
theorem Writes.registered_before {a : Action} (w : Writes (.outside g a) now s s')
    {oid : OperationId} {o' : Operation} (ho' : s'.operations.get? oid = some o') :
    ∃ o, s.operations.get? oid = some o ∧ o.Later o' := by
  induction w generalizing o' with
  | refl => exact ⟨o', ho', .refl o'⟩
  | tail _ w ih =>
      rcases w.operation_from with ⟨_, _, -, -, registers⟩ | from'
      · exact registers.elim
      · obtain ⟨o₁, ho₁, later₁⟩ := from' _ _ ho'
        obtain ⟨o, ho, later⟩ := ih ho₁
        exact ⟨o, ho, later.trans later₁⟩

theorem Writes.unstarted {a : Action} (w : Writes (.outside g a) now s s') {oid : OperationId}
    {o' : Operation} (ho' : s'.operations.get? oid = some o') (effectful : g.Effectful o')
    (unstarted : o'.state.unstarted = true) :
    ∃ o, s.operations.get? oid = some o ∧ o.Later o' ∧ (o.state.unstarted = true ∨ a.Confirms oid) := by
  induction w generalizing o' with
  | refl => exact ⟨o', ho', .refl o', .inl unstarted⟩
  | tail before w ih =>
      obtain ⟨o₁, ho₁, later₁, unstarted₁ | confirms⟩ := w.unstarted ho' effectful unstarted
      · obtain ⟨o, ho, later, why⟩ := ih ho₁ (later₁.effectful effectful) unstarted₁
        exact ⟨o, ho, later.trans later₁, why⟩
      · obtain ⟨o, ho, later⟩ := registered_before before ho₁
        exact ⟨o, ho, later.trans later₁, .inr confirms⟩

/-! ## What the user attests -/

theorem Action.attested_of_confirms {a : Action} {oid : OperationId} {o : Operation}
    (confirms : a.Confirms oid) (ho : s.operations.get? oid = some o) :
    a.attested s = [.confirmed oid o] := by
  obtain ⟨machine, owner, request, rfl, decision⟩ := confirms
  simp [attested, decision, ho]

theorem Action.mem_attested {a : Action} {e : ToolEvent} (h : e ∈ a.attested s) :
    ∃ oid o, e = .confirmed oid o ∧ a.Confirms oid ∧ s.operations.get? oid = some o := by
  unfold attested at h
  split at h
  · rename_i machine owner oid request
    split at h
    · rename_i decision
      cases ho : s.operations.get? oid with
      | none => simp [ho] at h
      | some o =>
          simp only [ho, Option.toList_some, List.map_cons, List.map_nil, List.mem_singleton] at h
          exact ⟨oid, o, h, ⟨machine, owner, request, rfl, decision⟩, ho⟩
    · cases h
  · cases h

/-- A confirmation is accepted only on evidence that the operation has not started. -/
theorem reconcile_proven {machine : Machine} {owner : OwnerId} {oid : OperationId}
    {request : ReconcileRequest} {o : Operation}
    (h : reconcile machine s owner oid request now = .ok s')
    (confirms : request.decision = .confirmNotExecuted) (ho : s.operations.get? oid = some o) :
    o.metadata.provenNotStarted = true := by
  simp only [reconcile, bind_eq_ok, Store.operation_eq_ok] at h
  obtain ⟨-, -, run, -, -, -, ⟨permitted, t⟩, hreconcile, -⟩ := h
  obtain ⟨row, patch, hrow, -, hpatch, -⟩ := reconcileOperation_eq_ok hreconcile
  cases ho.symm.trans hrow
  rw [reconcilePatch, confirms] at hpatch
  obtain ⟨_, proven, -⟩ := bind_eq_ok.mp hpatch
  exact require_eq_ok.mp proven

/-! ## What a turn leaves unstarted -/

/-- An operation that has not started after a turn had not before, or is new. -/
theorem Call.Changes.unstarted {phase : Phase} {operations : Table OperationId Operation}
    (changes : c.Changes g s phase operations) {oid : OperationId} {o' : Operation}
    (ho' : operations.get? oid = some o') (unstarted : o'.state.unstarted = true) :
    (∃ o, s.operations.get? oid = some o ∧ o.Later o' ∧ o.state.unstarted = true) ∨
      s.operations.get? oid = none := by
  cases changes with
  | same => exact .inl ⟨o', ho', .refl o', unstarted⟩
  | registered hinsert =>
      obtain ⟨absent, rows⟩ := Table.insert?_eq_some hinsert
      rw [rows] at ho'
      split at ho'
      · rename_i same
        exact .inr (same ▸ absent)
      · exact .inl ⟨o', ho', .refl o', unstarted⟩
  | @started oid₀ o _ _ gid ho =>
      rw [Table.get?_modify] at ho'
      split at ho'
      · rename_i same
        subst same
        rw [Table.get?_modify_self, ho] at ho'
        cases ho'
        cases unstarted
      · rename_i other
        rw [Table.get?_modify_ne _ _ other] at ho'
        exact .inl ⟨o', ho', .refl o', unstarted⟩
  | @noted _ oid₀ patch _ _ starts =>
      rw [Table.get?_modify] at ho'
      split at ho'
      · rename_i same
        subst same
        obtain ⟨o, ho, rfl⟩ := Option.map_eq_some_iff.mp ho'
        refine .inl ⟨o, ho, .apply patch o, ?_⟩
        cases hstate : patch.state with
        | none => simpa [OperationPatch.apply, hstate] using unstarted
        | some state =>
            have new : (patch.apply o).state = state := by simp [OperationPatch.apply, hstate]
            rw [new, (starts state hstate).1] at unstarted
            cases unstarted
      · exact .inl ⟨o', ho', .refl o', unstarted⟩

/-- A turn that invokes the executor of a tool with effects is the start of the operation. -/
theorem Call.Turn.invoked {progress : Progress} {events : List ToolEvent} {phase : Phase}
    (sound : c.Sound g s) (turn : c.Turn g s now input phase progress s' events) :
    (∀ e ∈ events, (∀ oid, ¬e.Invokes oid) ∧ (∀ oid o, e ≠ .confirmed oid o) ∧
      ∀ oid key spec, e = .invoked oid key spec →
        phase.target = some oid ∧ key = c.key ∧ spec = c.spec) ∨
      ∃ oid o binding policyRevision, phase = .rechecked oid o binding policyRevision ∧
        startOperation s c.ctx oid o input.fresh binding policyRevision now = .ok s' ∧
        events = [.invoked oid c.key c.spec] := by
  cases turn with
  | granted starts => exact .inr ⟨_, _, _, _, rfl, starts, rfl⟩
  | begun waits =>
      refine .inl fun e he => ?_
      cases List.mem_singleton.mp he
      obtain ⟨version, registered⟩ := sound.spec
      have reads := g.waiters _ _ _ registered waits
      refine ⟨fun oid invokes => invokes.2 reads, fun _ _ h => (by cases h), fun _ _ _ h => ?_⟩
      cases h
      exact ⟨rfl, rfl, rfl⟩
  | sent =>
      refine .inl fun e he => ?_
      cases List.mem_singleton.mp he
      exact ⟨fun _ => id, fun _ _ h => (by cases h), fun _ _ _ h => (by cases h)⟩
  | _ => exact .inl fun _ he => (by cases he)

/-! ## The guard -/

/-- The tool of the operation of a call is the tool that the call has looked up. -/
theorem Call.Sound.registered (sound : c.Sound g s) {o : Operation}
    (hmatches : c.Matches g o) : g.host.registry o.toolId o.toolRevision = some c.spec := by
  obtain ⟨version, registered⟩ := sound.spec
  obtain ⟨-, same⟩ := g.keyed _ _ _ registered
  rw [hmatches.tool, hmatches.revision, same]
  exact registered

namespace GatewayWorld

variable {w w' : GatewayWorld}

/-- No operation that has not started has been invoked since the user confirmed it was not. -/
structure Guarded (g : Installation) (w : GatewayWorld) : Prop where
  once : ∀ oid o, w.base.store.operations.get? oid = some o → g.Effectful o →
    Once (ToolEvent.Invokes oid) (ToolEvent.Confirms oid) w.trace
  unspent : ∀ oid o, w.base.store.operations.get? oid = some o → g.Effectful o →
    o.state.unstarted = true → ¬Spent (ToolEvent.Invokes oid) (ToolEvent.Confirms oid) w.trace
  invoked : ∀ oid key spec, .invoked oid key spec ∈ w.trace →
    ∃ o, w.base.store.operations.get? oid = some o ∧ o.key = key ∧
      g.host.registry o.toolId o.toolRevision = some spec
  confirmed : ∀ oid o, .confirmed oid o ∈ w.trace → o.metadata.provenNotStarted = true ∧
    ∃ o', w.base.store.operations.get? oid = some o' ∧ o.Later o'

/-- An operation that is not there has not been invoked. -/
theorem Guarded.absent (guarded : w.Guarded g) {oid : OperationId}
    (h : w.base.store.operations.get? oid = none) : ∀ e ∈ w.trace, ¬e.Invokes oid := by
  intro e he invokes
  cases e with
  | invoked oid' key spec =>
      obtain ⟨rfl, -⟩ := invokes
      obtain ⟨o, ho, -⟩ := guarded.invoked _ key spec he
      cases h.symm.trans ho
  | sent | confirmed => exact invokes

/-- A step that invokes nothing keeps the guard. -/
theorem Guarded.quiet {events : List ToolEvent} (guarded : w.Guarded g)
    (trace : w'.trace = events ++ w.trace) (silent : ∀ e ∈ events, ∀ oid, ¬e.Invokes oid)
    (stays : ∀ oid o, w.base.store.operations.get? oid = some o →
      ∃ o', w'.base.store.operations.get? oid = some o' ∧ o.Later o')
    (invoked : ∀ oid key spec, .invoked oid key spec ∈ events →
      ∃ o, w.base.store.operations.get? oid = some o ∧ o.key = key ∧
        g.host.registry o.toolId o.toolRevision = some spec)
    (confirmed : ∀ oid o, .confirmed oid o ∈ events → o.metadata.provenNotStarted = true ∧
      w.base.store.operations.get? oid = some o)
    (unstarted : ∀ oid o', w'.base.store.operations.get? oid = some o' → g.Effectful o' →
      o'.state.unstarted = true →
      (∃ o, w.base.store.operations.get? oid = some o ∧ o.Later o' ∧ o.state.unstarted = true) ∨
        w.base.store.operations.get? oid = none ∨ ∃ o, events = [.confirmed oid o]) :
    w'.Guarded g where
  once oid o' ho' effectful := by
    rw [trace]
    refine Once.silent ?_ fun e he => silent e he oid
    cases ho : w.base.store.operations.get? oid with
    | none => exact .of_unused (guarded.absent ho)
    | some o =>
        obtain ⟨o₁, ho₁, later⟩ := stays oid o ho
        cases ho'.symm.trans ho₁
        exact guarded.once oid o ho (later.effectful effectful)
  unspent oid o' ho' effectful hunstarted spent := by
    rw [trace] at spent
    rcases unstarted oid o' ho' effectful hunstarted with ⟨o, ho, later, before⟩ | absent | ⟨o, rfl⟩
    · exact guarded.unspent oid o ho (later.effectful effectful) before
        (spent.of_silent fun e he => silent e he oid)
    · obtain ⟨e, he, invokes⟩ := (spent.of_silent fun e he => silent e he oid).used
      exact guarded.absent absent e he invokes
    · exact not_spent_of_reset (show ToolEvent.Confirms oid (.confirmed oid o) from rfl)
        (silent _ (List.mem_singleton_self _) oid) spent
  invoked oid key spec h := by
    rw [trace] at h
    obtain ⟨o, ho, hkey, registered⟩ :=
      (List.mem_append.mp h).elim (invoked oid key spec) (guarded.invoked oid key spec)
    obtain ⟨o', ho', later⟩ := stays oid o ho
    exact ⟨o', ho', later.key.trans hkey, by rw [later.tool, later.toolRevision]; exact registered⟩
  confirmed oid o h := by
    rw [trace] at h
    rcases List.mem_append.mp h with h | h
    · obtain ⟨proven, ho⟩ := confirmed oid o h
      exact ⟨proven, stays oid o ho⟩
    · obtain ⟨proven, o₁, ho₁, later⟩ := guarded.confirmed oid o h
      obtain ⟨o₂, ho₂, later'⟩ := stays oid o₁ ho₁
      exact ⟨proven, o₂, ho₂, later.trans later'⟩

/-- The start of an operation keeps the guard. -/
theorem Guarded.start {c : Call} {oid : OperationId} {o : Operation} {binding : ApprovalBinding}
    {policyRevision : Nat} {gid : GrantId} (guarded : w.Guarded g) (sound : c.Sound g w.base.store)
    (phase : c.phase = .rechecked oid o binding policyRevision)
    (starts : startOperation w.base.store c.ctx oid o gid binding policyRevision now =
      .ok w'.base.store)
    (trace : w'.trace = .invoked oid c.key c.spec :: w.trace)
    (stays : ∀ oid o, w.base.store.operations.get? oid = some o →
      ∃ o', w'.base.store.operations.get? oid = some o' ∧ o.Later o') : w'.Guarded g := by
  obtain ⟨ho, unstarted, changed⟩ := sound.starts phase starts
  have other : ∀ oid', oid' ≠ oid →
      w'.base.store.operations.get? oid' = w.base.store.operations.get? oid' := by
    intro oid' different
    rw [changed, Table.get?_modify_ne _ _ different, Table.get?_modify_ne _ _ different]
  have started : ∀ o', w'.base.store.operations.get? oid = some o' → o'.state = .running := by
    intro o' ho'
    rw [changed, Table.get?_modify_self, Table.get?_modify_self, ho] at ho'
    cases ho'
    rfl
  constructor
  · intro oid' o' ho' effectful
    rw [trace]
    by_cases same : oid' = oid
    · subst same
      obtain ⟨o₁, ho₁, later⟩ := stays oid' o ho
      cases ho'.symm.trans ho₁
      have before := later.effectful effectful
      exact (guarded.once oid' o ho before).cons fun _ => guarded.unspent oid' o ho before unstarted
    · rw [other oid' same] at ho'
      exact (guarded.once oid' o' ho' effectful).cons fun invokes => absurd invokes.1.symm same
  · intro oid' o' ho' effectful hunstarted spent
    by_cases same : oid' = oid
    · subst same
      rw [started o' ho'] at hunstarted
      cases hunstarted
    · rw [other oid' same] at ho'
      rw [trace] at spent
      cases spent with
      | now invokes => exact same invokes.1.symm
      | before _ spent => exact guarded.unspent oid' o' ho' effectful hunstarted spent
  · intro oid' key spec h
    rw [trace] at h
    rcases List.mem_cons.mp h with h | h
    · cases h
      obtain ⟨o₁, ho₁, hmatches⟩ := sound.target oid (by rw [phase]; rfl)
      cases ho.symm.trans ho₁
      obtain ⟨o', ho', later⟩ := stays oid o ho
      have hmatches := hmatches.later later
      exact ⟨o', ho', hmatches.key, sound.registered hmatches⟩
    · obtain ⟨o₁, ho₁, hkey, registered⟩ := guarded.invoked oid' key spec h
      obtain ⟨o₂, ho₂, later⟩ := stays oid' o₁ ho₁
      exact ⟨o₂, ho₂, later.key.trans hkey, by rw [later.tool, later.toolRevision]; exact registered⟩
  · intro oid' o' h
    rw [trace] at h
    rcases List.mem_cons.mp h with h | h
    · cases h
    · obtain ⟨proven, o₁, ho₁, later⟩ := guarded.confirmed oid' o' h
      obtain ⟨o₂, ho₂, later'⟩ := stays oid' o₁ ho₁
      exact ⟨proven, o₂, ho₂, later.trans later'⟩

theorem Guarded.step {a : GatewayAction} (reach : (system g.host).Reachable w.base)
    (sound : w.Sound g) (guarded : w.Guarded g) (step : w.Stepped g a w') : w'.Guarded g := by
  have writes := step.writes reach sound
  have stays : ∀ oid o, w.base.store.operations.get? oid = some o →
      ∃ o', w'.base.store.operations.get? oid = some o' ∧ o.Later o' :=
    fun oid o ho => writes.operation_later ho
  have same : ∀ {calls}, ({ w with calls } : GatewayWorld).Guarded g :=
    fun {calls} => ⟨guarded.once, guarded.unspent, guarded.invoked, guarded.confirmed⟩
  cases step with
  | @transacted a base outside hnext =>
      have writes := (step_writes reach (Discipline.outside_meets outside) hnext).2
      refine guarded.quiet rfl (fun e he oid => ?_) stays (fun oid key spec h => ?_)
        (fun oid o h => ?_) fun oid o' ho' effectful unstarted => ?_
      · obtain ⟨_, _, rfl, -, -⟩ := a.mem_attested he
        exact id
      · obtain ⟨_, _, h, -, -⟩ := a.mem_attested h
        cases h
      · obtain ⟨_, _, h, confirms, ho⟩ := a.mem_attested h
        cases h
        obtain ⟨machine, owner, request, rfl, decision⟩ := confirms
        rcases World.next_perform hnext with ⟨_, h, -⟩ | ⟨-, store, performs, -⟩
        · cases h
        · exact ⟨reconcile_proven performs decision ho, ho⟩
      · obtain ⟨o, ho, later, before | confirms⟩ := writes.unstarted ho' effectful unstarted
        · exact .inl ⟨o, ho, later, before⟩
        · exact .inr (.inr ⟨o, a.attested_of_confirms confirms ho⟩)
  | declined => exact guarded
  | entered => exact same
  | @turned id input c progress store events hc turn =>
      have knows := sound id c hc
      rcases turn.invoked knows with silent | ⟨oid, o, binding, revision, phase, starts, rfl⟩
      · refine guarded.quiet rfl (fun e he => (silent e he).1) stays (fun oid key spec h => ?_)
          (fun oid o h => absurd rfl ((silent _ h).2.1 oid o)) fun oid o' ho' _ unstarted => ?_
        · obtain ⟨target, rfl, rfl⟩ := (silent _ h).2.2 oid key spec rfl
          obtain ⟨o, ho, hmatches⟩ := knows.target oid target
          exact ⟨o, ho, hmatches.key, knows.registered hmatches⟩
        · exact ((turn.changes knows).unstarted ho' unstarted).imp_right .inl
      · exact guarded.start knows phase starts rfl stays
  | left => exact same

end GatewayWorld

theorem gateway_guarded {w : GatewayWorld} (h : (gatewaySystem g).Reachable w) : w.Guarded g := by
  refine h.invariant (I := fun w => w.Guarded g) (fun w start => ?_) fun w a w' hw ih step => ?_
  · obtain ⟨store, -, trace⟩ := start
    constructor
    · intro oid o ho
      rw [store] at ho
      cases ho
    · intro oid o ho
      rw [store] at ho
      cases ho
    · intro oid key spec h
      rw [trace] at h
      cases h
    · intro oid o h
      rw [trace] at h
      cases h
  · obtain ⟨base, sound⟩ := gateway_base hw
    exact ih.step base sound (GatewayWorld.next_stepped step)

/-! ## The operation of a key -/

/-- The hash of an operation is that of its arguments. -/
def Store.Hashed (host : Host) (s : Store) : Prop :=
  ∀ oid o, s.operations.get? oid = some o → o.argsHash = host.contentHash o.args

theorem Store.Hashed.later {host : Host} (hashed : s.Hashed host) {oid : OperationId}
    {o o' : Operation} (ho : s.operations.get? oid = some o) (later : o.Later o') :
    o'.argsHash = host.contentHash o'.args := by
  rw [later.argsHash, later.args]
  exact hashed oid o ho

/-- A turn leaves an operation as it was, or with a later row, or registers the one its call asks
for. -/
theorem Call.Changes.row {phase : Phase} {operations : Table OperationId Operation}
    (changes : c.Changes g s phase operations) {oid : OperationId} {o' : Operation}
    (ho' : operations.get? oid = some o') :
    (∃ o, s.operations.get? oid = some o ∧ o.Later o') ∨ c.Matches g o' ∧ o'.args = c.args := by
  cases changes with
  | same => exact .inl ⟨o', ho', .refl o'⟩
  | registered hinsert hmatches args =>
      rw [(Table.insert?_eq_some hinsert).2] at ho'
      split at ho'
      · cases ho'
        exact .inr ⟨hmatches, args⟩
      · exact .inl ⟨o', ho', .refl o'⟩
  | @started oid₀ o _ _ gid ho =>
      by_cases same : oid = oid₀
      · subst same
        rw [Table.get?_modify_self, Table.get?_modify_self, ho] at ho'
        cases ho'
        exact .inl ⟨o, ho, .trans (.apply _ o) (.apply _ _)⟩
      · rw [Table.get?_modify_ne _ _ same, Table.get?_modify_ne _ _ same] at ho'
        exact .inl ⟨o', ho', .refl o'⟩
  | @noted _ oid₀ patch =>
      rw [Table.get?_modify] at ho'
      split at ho'
      · rename_i same
        subst same
        obtain ⟨o, ho, rfl⟩ := Option.map_eq_some_iff.mp ho'
        exact .inl ⟨o, ho, .apply patch o⟩
      · exact .inl ⟨o', ho', .refl o'⟩

theorem gateway_hashed {w : GatewayWorld} (h : (gatewaySystem g).Reachable w) :
    w.base.store.Hashed g.host := by
  refine h.invariant (I := fun w => w.base.store.Hashed g.host) (fun w start => ?_)
    fun w a w' hw hashed step => ?_
  · intro oid o ho
    rw [start.1] at ho
    cases ho
  · obtain ⟨reach, sound⟩ := gateway_base hw
    intro oid o' ho'
    cases GatewayWorld.next_stepped step with
    | transacted outside hnext =>
        have writes := (step_writes reach (Discipline.outside_meets (g := g) outside) hnext).2
        obtain ⟨o, ho, later⟩ := writes.registered_before ho'
        exact hashed.later ho later
    | @turned id input c progress store events hc turn =>
        rcases (turn.changes (sound id c hc)).row ho' with ⟨o, ho, later⟩ | ⟨hmatches, args⟩
        · exact hashed.later ho later
        · rw [hmatches.args, args]
    | _ => exact hashed oid o' ho'

/-- Operations are found by their keys. -/
theorem Store.operationByKey_of {key : OperationKey} {oid : OperationId} {o : Operation}
    (apart : s.KeysApart) (ho : s.operations.get? oid = some o) (same : o.key = key) :
    s.operationByKey key = some (oid, o) := by
  cases h : s.operationByKey key with
  | none => exact absurd same (Store.operationByKey_eq_none h oid o ho)
  | some found =>
      obtain ⟨oid', o'⟩ := found
      obtain ⟨ho', same'⟩ := Store.operationByKey_eq_some h
      cases apart oid' oid o' o ho' ho (same'.trans same.symm)
      cases ho.symm.trans ho'
      rfl

/-- The executor of a tool that does more than read is invoked with the key. -/
def ToolEvent.InvokesKey (key : OperationKey) (e : ToolEvent) : Prop :=
  ∃ oid spec, e = .invoked oid key spec ∧ spec.effect ≠ .read

/-- The user's confirmation that the operation of the key was not executed is accepted on
evidence that it has not started. -/
def ToolEvent.ConfirmsKey (key : OperationKey) (e : ToolEvent) : Prop :=
  ∃ oid o, e = .confirmed oid o ∧ o.key = key ∧ o.metadata.provenNotStarted = true

/-- The executor of a tool with effects is invoked once for a key, unless the user confirms in
between, on evidence, that it has not been. -/
theorem GatewayWorld.Guarded.onceKey {w : GatewayWorld} (guarded : w.Guarded g)
    (apart : w.base.store.KeysApart) (key : OperationKey) :
    Once (ToolEvent.InvokesKey key) (ToolEvent.ConfirmsKey key) w.trace := by
  rintro later between earlier e e' split ⟨oid, spec, rfl, effect⟩ ⟨oid', spec', rfl, effect'⟩
  obtain ⟨o, ho, hkey, registered⟩ := guarded.invoked oid key spec (by rw [split]; simp)
  obtain ⟨o', ho', hkey', -⟩ := guarded.invoked oid' key spec' (by rw [split]; simp)
  obtain rfl := apart oid oid' o o' ho ho' (hkey.trans hkey'.symm)
  have effectful : g.Effectful o := fun spec₁ registered₁ => by
    cases registered.symm.trans registered₁
    exact effect
  obtain ⟨r, hr, confirms⟩ :=
    guarded.once oid o ho effectful later between earlier _ _ split ⟨rfl, effect⟩ ⟨rfl, effect'⟩
  refine ⟨r, hr, ?_⟩
  cases r with
  | confirmed oid₁ o₁ =>
      obtain rfl : oid₁ = oid := confirms
      have member : .confirmed oid₁ o₁ ∈ w.trace := by
        rw [split]
        exact List.mem_append_right _ (List.mem_cons_of_mem _ (List.mem_append_left _ hr))
      obtain ⟨proven, o₂, ho₂, later₂⟩ := guarded.confirmed oid₁ o₁ member
      cases ho.symm.trans ho₂
      exact ⟨oid₁, o₁, rfl, later₂.key.symm.trans hkey, proven⟩
  | invoked | sent => exact confirms.elim

/-- A call with the key of an operation of another tool, version or arguments is refused. -/
theorem Call.Sound.refused (sound : c.Sound g s) (apart : s.KeysApart) {oid : OperationId}
    {o : Operation} (ho : s.operations.get? oid = some o) (same : o.key = c.key)
    (differs : ¬c.Matches g o) : c.advance g s now input =
      .error { code := .operationConflict, message := "同一操作不得更换参数或实现版本" } := by
  have found := Store.operationByKey_of apart ho same
  cases target : c.phase.target with
  | some oid' =>
      obtain ⟨o', ho', hmatches⟩ := sound.target oid' target
      cases apart oid oid' o o' ho ho' (same.trans hmatches.key.symm)
      cases ho.symm.trans ho'
      exact absurd hmatches differs
  | none =>
      cases hphase : c.phase with
      | entered =>
          have conflict : ¬(o.argsHash = g.host.contentHash c.args ∧ o.toolId = c.name ∧
              o.toolRevision = c.spec.version) :=
            fun ⟨args, tool, revision⟩ => differs ⟨same, tool, revision, args⟩
          simp only [advance, hphase, register, found, require_neg _ conflict, error_bind]
      | _ => simp [hphase, Phase.target] at target

/-- A call that repeats an operation that has ended returns its result. -/
theorem Call.repeated {oid : OperationId} {o : Operation} {result : ToolResult}
    (entered : c.phase = .entered) (found : s.operationByKey c.key = some (oid, o))
    (hmatches : c.Matches g o) (finished : o.state.finished = true)
    (hresult : o.result = some result) :
    c.advance g s now input = .ok (.done (.result result), s, []) := by
  have same : o.argsHash = g.host.contentHash c.args ∧ o.toolId = c.name ∧
      o.toolRevision = c.spec.version := ⟨hmatches.args, hmatches.tool, hmatches.revision⟩
  simp only [advance, entered, register, found, require_pos _ same, ok_bind, resume, hresult, finished,
    if_true]

/-- At most once.  The executor of a tool with effects is invoked once for a key, but for a
confirmed non-execution; a call of the same key that differs is refused, in every phase; a call
that repeats an operation that has ended returns the stored result.  Arguments are compared by
their hash. -/
theorem invoked_once {w : GatewayWorld} (h : (gatewaySystem g).Reachable w) :
    (∀ key, Once (ToolEvent.InvokesKey key) (ToolEvent.ConfirmsKey key) w.trace) ∧
    (∀ id c oid o input, w.calls id = some c → w.base.store.operations.get? oid = some o →
      o.key = c.key → (o.toolId ≠ c.name ∨ o.toolRevision ≠ c.spec.version ∨
        g.host.contentHash o.args ≠ g.host.contentHash c.args) →
      c.advance g w.base.store w.base.now input =
        .error { code := .operationConflict, message := "同一操作不得更换参数或实现版本" }) ∧
    ∀ id c oid o input, w.calls id = some c → c.phase = .entered →
      w.base.store.operations.get? oid = some o → o.key = c.key → o.toolId = c.name →
      o.toolRevision = c.spec.version → o.args = c.args → o.state.finished = true →
      ∃ result, o.result = some result ∧ c.advance g w.base.store w.base.now input =
        .ok (.done (.result result), w.base.store, []) := by
  obtain ⟨reach, sound⟩ := gateway_base h
  have apart := reachable_keysApart reach
  have hashed := gateway_hashed h
  refine ⟨(gateway_guarded h).onceKey apart, fun id c oid o input hc ho same differs => ?_,
    fun id c oid o input hc entered ho same tool revision args finished => ?_⟩
  · refine (sound id c hc).refused apart ho same fun hmatches => ?_
    rcases differs with tool | revision | args
    · exact tool hmatches.tool
    · exact revision hmatches.revision
    · exact args ((hashed oid o ho).symm.trans hmatches.args)
  · obtain ⟨result, hresult⟩ :=
      Option.isSome_iff_exists.mp (reachable_recorded reach oid o ho finished)
    have hmatches : c.Matches g o := ⟨same, tool, revision, by rw [hashed oid o ho, args]⟩
    exact ⟨result, hresult,
      Call.repeated entered (Store.operationByKey_of apart ho same) hmatches finished hresult⟩

/-- The tool of run `10` is invoked. -/
theorem invoked_once_called : ∃ w : GatewayWorld,
    w.trace = [.invoked 100 ⟨10, 1, 1⟩ ⟨.named "mcp", "1", "builtin", .externalWrite, [], true⟩] ∧
    Once (ToolEvent.InvokesKey ⟨10, 1, 1⟩) (ToolEvent.ConfirmsKey ⟨10, 1, 1⟩) w.trace := by
  have run : (System.runs (GatewayWorld.next Sample.tools) Sample.gatewayStart
      (Sample.called ++ Sample.turns 5)).any (fun w => decide (w.trace =
        [.invoked 100 ⟨10, 1, 1⟩ ⟨.named "mcp", "1", "builtin", .externalWrite, [], true⟩])) =
      true := by decide +kernel
  obtain ⟨w, hw, trace⟩ := Option.any_eq_true _ _ |>.mp run
  exact ⟨w, of_decide_eq_true trace, (invoked_once (Sample.gatewayReachable hw)).1 _⟩

end MiHarness

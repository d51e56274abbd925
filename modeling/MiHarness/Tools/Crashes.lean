import MiHarness.Scheduler.Abandoned
import MiHarness.Tools.Exchange

/-!
# Crashes with a request in flight

A call that is lost leaves its operation running, in the round of the request that was in flight, and
no other call takes the exchange up (`GatewayWorld.Orphaned`).  It is for `recover` to find the
operation unknown.  It does so if the process that recovers has registered the tools of the run; the
worker that takes over from a lost one has registered those of the built-in tools only, and raises.
-/

namespace MiHarness

open Library

variable {g : Installation} {c : Call} {s s' : Store} {now : Time} {input : Input} {D : Discipline}

/-! ## Operations that run -/

/-- An exchange that is in a round is not one that recovery leaves alone. -/
theorem Operation.AtRound.unsaved {o : Operation} {round : Nat} (h : o.AtRound round) (rid : RunId)
    (oid : OperationId) : s.continuation rid oid o = false := by
  have none : o.awaitsInput = none := by
    rw [awaitsInput]
    split
    · rename_i k hk
      rw [if_neg]
      intro awaits
      cases awaits.2.2.1.symm.trans (h.not_awaiting hk)
    · rfl
  rw [Store.continuation, none]
  rfl

/-- A write that starts nothing makes no operation running. -/
theorem Write.running_before (w : Write D now s s') (idle : ¬D.scope.starts) {oid : OperationId}
    {o' : Operation} (ho' : s'.operations.get? oid = some o') (running : o'.state = .running) :
    ∃ o, s.operations.get? oid = some o ∧ o.state = .running := by
  have moved : ∀ {o : Operation} {patch : OperationPatch}, (patch.apply o).state = .running →
      patch.state ≠ some .running → o.state = .running := by
    intro o patch running other
    cases hstate : patch.state with
    | none => simpa [OperationPatch.apply, hstate] using running
    | some state =>
        have new : (patch.apply o).state = state := by simp [OperationPatch.apply, hstate]
        exact absurd (hstate.trans (congrArg some (new.symm.trans running))) other
  cases w.operationEffect ho' with
  | kept ho => exact ⟨o', ho, running⟩
  | added _ _ prepared =>
      rw [prepared] at running
      cases running
  | moved ho move =>
      refine ⟨_, ho, moved running fun starts => ?_⟩
      cases move with
      | stepped _ started => exact idle (started ⟨_, starts, .inr rfl⟩).2
      | lost _ _ _ target => simp [starts] at target
      | reconciled _ _ _ _ target => simp [starts] at target
      | accepted _ _ _ still => cases still.symm.trans starts
  | released ho _ _ _ target =>
      refine ⟨_, ho, moved running fun starts => ?_⟩
      simp [starts] at target
  | closed => cases running

theorem Writes.running_before {a : Action} (w : Writes (.outside g a) now s s') {oid : OperationId}
    {o' : Operation} (ho' : s'.operations.get? oid = some o') (running : o'.state = .running) :
    ∃ o, s.operations.get? oid = some o ∧ o.state = .running := by
  induction w generalizing o' with
  | refl => exact ⟨o', ho', running⟩
  | tail _ w ih =>
      obtain ⟨o₁, ho₁, running₁⟩ := w.running_before id ho' running
      exact ih ho₁ running₁

theorem Call.Changes.running_before {phase : Phase} {operations : Table OperationId Operation}
    (changes : c.Changes g s phase operations) {oid : OperationId} {o' : Operation}
    (ho' : operations.get? oid = some o') (running : o'.state = .running) :
    ∃ o, s.operations.get? oid = some o ∧ (o.state = .running ∨ o.state.unstarted = true) := by
  cases changes with
  | same => exact ⟨o', ho', .inl running⟩
  | registered hinsert _ _ prepared =>
      rw [(Table.insert?_eq_some hinsert).2] at ho'
      split at ho'
      · cases ho'
        rw [prepared] at running
        cases running
      · exact ⟨o', ho', .inl running⟩
  | @started oid₀ o _ _ gid ho unstarted =>
      by_cases same : oid = oid₀
      · subst same
        exact ⟨o, ho, .inr unstarted⟩
      · rw [Table.get?_modify_ne _ _ same, Table.get?_modify_ne _ _ same] at ho'
        exact ⟨o', ho', .inl running⟩
  | @noted _ oid₀ patch _ _ starts =>
      rw [Table.get?_modify] at ho'
      split at ho'
      · rename_i same
        subst same
        obtain ⟨o, ho, rfl⟩ := Option.map_eq_some_iff.mp ho'
        refine ⟨o, ho, .inl ?_⟩
        cases hstate : patch.state with
        | none => simpa [OperationPatch.apply, hstate] using running
        | some state =>
            have new : (patch.apply o).state = state := by simp [OperationPatch.apply, hstate]
            exact absurd (new.symm.trans running) (starts state hstate).2
      · exact ⟨o', ho', .inl running⟩

namespace GatewayWorld

variable {w w' : GatewayWorld}

/-- The call that was at work for the operation is lost. -/
structure Orphaned (w : GatewayWorld) (oid : OperationId) : Prop where
  idle : ∀ id o round stage, ¬w.Works oid id o round stage
  started : ∃ current, w.base.store.operations.get? oid = some current ∧
    current.state.unstarted = false ∧ (current.state = .running → ∃ round, current.AtRound round)

/-- The others do not take up what a lost call has left. -/
theorem Orphaned.transacted {a : Action} {base : World} {oid : OperationId}
    (reach : (system g.host).Reachable w.base) (orphaned : w.Orphaned oid)
    (plain : ({ w with base, trace := a.attested w.base.store ++ w.trace } : GatewayWorld).Plain g oid)
    (outside : a.outside = true) (hnext : w.base.next g.host a = some base) :
    ({ w with base, trace := a.attested w.base.store ++ w.trace } : GatewayWorld).Orphaned oid := by
  have writes := (step_writes reach (Discipline.outside_meets (g := g) outside) hnext).2
  obtain ⟨current, hcurrent, started, running⟩ := orphaned.started
  obtain ⟨current', hcurrent', -⟩ := writes.operation_later hcurrent
  refine ⟨orphaned.idle, current', hcurrent', Bool.eq_false_iff.mpr fun unstarted => ?_,
    fun running' => ?_⟩
  · obtain ⟨o, ho, -, before | confirms⟩ :=
      writes.unstarted hcurrent' (plain.effectful current' hcurrent') unstarted
    · cases hcurrent.symm.trans ho
      rw [started] at before
      cases before
    · have member : .confirmed oid o ∈ a.attested w.base.store ++ w.trace := by
        rw [a.attested_of_confirms confirms ho]
        exact List.mem_cons_self ..
      exact absurd rfl (plain.unconfirmed _ member)
  · obtain ⟨o, ho, before⟩ := writes.running_before hcurrent' running'
    obtain ⟨o₁, ho₁, same⟩ := writes.exchange_kept hcurrent'
    cases hcurrent.symm.trans ho
    cases hcurrent.symm.trans ho₁
    obtain ⟨round, at'⟩ := running before
    exact ⟨round, at'.congr same⟩

/-- No call at work, and no turn that gets one to work: only an operation that has not started and an
exchange that awaits the user are taken up. -/
theorem Orphaned.not_works {oid : OperationId} {id : CallId} {c : Call} {phase' : Phase}
    {events : List ToolEvent} (orphaned : w.Orphaned oid) (holds : w.HoldsRunning)
    (hc : w.calls id = some c) (knows : c.Sound g w.base.store)
    (turn : c.Turn g w.base.store w.base.now input c.phase (.next phase') s' events) :
    ∀ o round stage, phase' ≠ .working oid o round stage := by
  rintro o round stage rfl
  obtain ⟨current, hcurrent, started, running⟩ := orphaned.started
  generalize hphase : c.phase = phase at turn
  cases turn with
  | granted starts =>
      obtain ⟨ho, unstarted, -⟩ := knows.starts hphase starts
      cases hcurrent.symm.trans ho
      rw [started] at unstarted
      cases unstarted
  | @answered _ o₀ _ k _ _ _ ready _ sends =>
      obtain ⟨hk, awaiting⟩ := answeredExchange_eq_ok ready
      obtain ⟨current₁, hcurrent₁, revision, -⟩ := sendExchange_eq_ok sends
      cases knows.current (by rw [hphase]; rfl) (by rw [hphase]; rfl) hcurrent₁ revision
      cases hcurrent.symm.trans hcurrent₁
      obtain ⟨round', at'⟩ :=
        running (holds id c current hc (by rw [hphase]; rfl) (by rw [hphase]; rfl))
      cases awaiting.symm.trans (at'.not_awaiting hk)
  | pending => exact orphaned.idle id o round stage ⟨c, hc, hphase⟩
  | validated => exact orphaned.idle id o round .ready ⟨c, hc, hphase⟩
  | sent => exact orphaned.idle id o round .validated ⟨c, hc, hphase⟩

theorem Orphaned.turns {oid : OperationId} {id : CallId} {c : Call} {progress : Progress}
    {events : List ToolEvent} (orphaned : w.Orphaned oid) (holds : w.HoldsRunning)
    (hc : w.calls id = some c) (knows : c.Sound g w.base.store)
    (writes : Writes D now w.base.store s')
    (turn : c.Turn g w.base.store w.base.now input c.phase progress s' events) :
    (w.turned id c progress s' events).Orphaned oid := by
  obtain ⟨current, hcurrent, started, running⟩ := orphaned.started
  obtain ⟨current', hcurrent', -⟩ := writes.operation_later hcurrent
  -- no call is at work, so none takes the exchange further from a round
  have unmoved : current.state = .running →
      current'.metadata.protocolContinuation = current.metadata.protocolContinuation := by
    intro before
    rcases turn.exchange knows hcurrent' with ⟨absent, -⟩ | ⟨o, ho, same | ⟨advances, -⟩⟩
    · cases hcurrent.symm.trans absent
    · cases hcurrent.symm.trans ho
      exact same
    · cases hcurrent.symm.trans ho
      obtain ⟨round, at'⟩ := running before
      generalize hphase : c.phase = phase at advances
      cases advances with
      | @suspended round => exact absurd ⟨c, hc, hphase⟩ (orphaned.idle id current round .sent)
      | answered hk awaiting => cases awaiting.symm.trans (at'.not_awaiting hk)
  refine ⟨fun id' o round stage works => ?_, current', hcurrent',
    Bool.eq_false_iff.mpr fun unstarted => ?_, fun running' => ?_⟩
  · rcases works.of_turn with ⟨rfl, rfl⟩ | ⟨-, still⟩
    · exact orphaned.not_works holds hc knows turn o round stage rfl
    · exact orphaned.idle id' o round stage still
  · rcases (turn.changes knows).unstarted hcurrent' unstarted with ⟨o, ho, -, before⟩ | absent
    · cases hcurrent.symm.trans ho
      rw [started] at before
      cases before
    · cases hcurrent.symm.trans absent
  · obtain ⟨o, ho, before⟩ := (turn.changes knows).running_before hcurrent' running'
    cases hcurrent.symm.trans ho
    rcases before with before | unstarted
    · obtain ⟨round, at'⟩ := running before
      exact ⟨round, at'.congr (unmoved before)⟩
    · rw [started] at unstarted
      cases unstarted

theorem Orphaned.called {id : CallId} {call : Option Call} {oid : OperationId}
    (orphaned : w.Orphaned oid)
    (idle : ∀ c o round stage, call = some c → c.phase ≠ .working oid o round stage) :
    ({ w with calls := w.withCall id call } : GatewayWorld).Orphaned oid := by
  refine ⟨fun id' o round stage works => ?_, orphaned.started⟩
  obtain ⟨c', hc', phase⟩ := works
  rcases withCall_eq_some hc' with ⟨-, h⟩ | ⟨-, h⟩
  · exact idle c' o round stage h phase
  · exact orphaned.idle id' o round stage ⟨c', h, phase⟩

theorem Orphaned.step {a : GatewayAction} {oid : OperationId}
    (reach : (gatewaySystem g).Reachable w) (plain : w'.Plain g oid) (orphaned : w.Orphaned oid)
    (step : w.Stepped g a w') : w'.Orphaned oid := by
  obtain ⟨base, sound⟩ := gateway_base reach
  obtain ⟨holds, -, -⟩ := gateway_exchanges reach
  have writes := step.writes base sound
  cases step with
  | transacted outside hnext => exact orphaned.transacted base plain outside hnext
  | declined => exact orphaned
  | entered =>
      refine orphaned.called fun c o round stage h phase => ?_
      cases h
      cases phase
  | left => exact orphaned.called fun c o round stage h => by cases h
  | turned hc turn => exact orphaned.turns holds hc (sound _ _ hc) writes turn

/-- A call at work that is lost leaves its operation orphaned. -/
theorem Works.orphaned {oid : OperationId} {id : CallId} {o : Operation} {round : Nat}
    {stage : Stage} (reach : (gatewaySystem g).Reachable w) (plain : w.Plain g oid)
    (works : w.Works oid id o round stage) :
    ({ w with calls := w.withCall id none } : GatewayWorld).Orphaned oid := by
  have serial := gateway_serial reach oid plain
  obtain ⟨invoked, held, current, hcurrent, at'⟩ := serial.live id o round stage works
  refine ⟨?_, current, hcurrent, ?_, fun _ => ⟨round, at'⟩⟩
  · rintro id' o' round' stage' ⟨c, hc, phase⟩
    rcases withCall_eq_some hc with ⟨-, h⟩ | ⟨other, h⟩
    · cases h
    · exact other (serial.single id' id o' o round' round stage' stage ⟨c, h, phase⟩ works)
  · refine Bool.eq_false_iff.mpr fun unstarted => ?_
    have blank := (gateway_exchanges reach).2.1 oid current plain hcurrent unstarted
    exact plain.uninvoked (gateway_guarded reach) hcurrent unstarted (invoked (at'.unique blank))

end GatewayWorld

/-! ## At most once -/

/-- The turn of a listed run in `recover` is a step if it commits. -/
theorem recoverRun_step {w w' : GatewayWorld} {machine : Machine} {rid : RunId} {run : Run}
    (hrun : w.base.store.runs.get? rid = some run) (listed : run.status ∈ recoverable) :
    (gatewaySystem g).step w (.transact (.recoverRun machine rid)) w' ↔
      ∃ s', recoverRun g.host machine w.base.store rid run w.base.now = .ok s' ∧
        w' = { w with base := { w.base with store := s' } } := by
  have next : GatewayWorld.next g w (.transact (.recoverRun machine rid)) =
      (recoverRun g.host machine w.base.store rid run w.base.now).toOption.map fun store =>
        { w with base := { w.base with store } } := by
    have performs : (Action.recoverRun machine rid).perform g.host w.base.store w.base.now =
        recoverRun g.host machine w.base.store rid run w.base.now := by
      rw [Action.perform, Store.run_eq_ok.mpr hrun, ok_bind, if_pos listed]
    rw [GatewayWorld.next, if_pos (show (Action.recoverRun machine rid).outside = true from rfl),
      World.next, if_pos (show (Action.recoverRun machine rid).admissible _ = true from rfl), performs]
    · cases recoverRun g.host machine w.base.store rid run w.base.now <;> rfl
    · intro now h
      cases h
  show GatewayWorld.next g w _ = some w' ↔ _
  rw [next, Option.map_eq_some_iff]
  constructor
  · rintro ⟨s', h, rfl⟩
    exact ⟨s', toOption_eq_some.mp h, rfl⟩
  · rintro ⟨s', h, rfl⟩
    exact ⟨s', toOption_eq_some.mpr h, rfl⟩

/-- A call for the operation has been lost with its request in flight. -/
def GatewayWorld.Crashed (g : Installation) (w : GatewayWorld) (oid : OperationId) : Prop :=
  ∃ w₀ w₁ id o round, (gatewaySystem g).Reachable w₀ ∧ w₀.Works oid id o round .sent ∧
    (gatewaySystem g).step w₀ (.leave id) w₁ ∧ (gatewaySystem g).Path w₁ w

theorem GatewayWorld.Crashed.orphaned {w : GatewayWorld} {oid : OperationId}
    (crashed : w.Crashed g oid) (plain : w.Plain g oid) : w.Orphaned oid := by
  obtain ⟨w₀, w₁, id, o, round, reach, works, crash, path⟩ := crashed
  refine path.stable (P := fun w => w.Plain g oid → w.Orphaned oid)
    (fun u a u' hu ih step plain => ?_) (reach.step crash) (fun plain => ?_) plain
  · obtain ⟨base, sound⟩ := gateway_base hu
    have stepped := GatewayWorld.next_stepped step
    exact (ih (plain.before stepped (stepped.writes base sound))).step hu plain stepped
  · cases GatewayWorld.next_stepped crash with
    | left => exact works.orphaned reach ⟨plain.unconfirmed, plain.effectful⟩

/-- At most once.  For a tool with effects whose operation the user has not declared unexecuted,
the request of every round is sent at most once, where round `0` is the call itself; the saved
exchange changes only with a call that has read the row as it stands, at the round the row names;
and after a call was lost with its request in flight, no call is at work for the operation any more,
and the turn of its abandoned run in `recover` finds it unknown exactly if the run is recoverable by
the process.  A whole call of `recover` does so if all abandoned runs are. -/
theorem exchanged_once {w : GatewayWorld} (h : (gatewaySystem g).Reachable w) {oid : OperationId}
    (plain : w.Plain g oid) :
    (∀ round, w.trace.count (.sent oid round) ≤ 1) ∧
    (∀ a w' o o', (gatewaySystem g).step w a w' → w.base.store.operations.get? oid = some o →
      w'.base.store.operations.get? oid = some o' →
      o'.metadata.protocolContinuation ≠ o.metadata.protocolContinuation →
      ∃ id input c, a = .turn id input ∧ w.calls id = some c ∧ c.phase.Advances oid o o' ∧
        ∀ round, c.phase = .working oid o round .sent → o.AtRound round) ∧
    (w.Crashed g oid →
      (∀ id o round stage, ¬w.Works oid id o round stage) ∧
      ∀ machine current name, w.base.store.operations.get? oid = some current →
        current.state = .running → current.toolId = .named name →
        w.base.store.Abandoned machine w.base.now current.runId →
        ((∃ w' o', (gatewaySystem g).step w (.transact (.recoverRun machine current.runId)) w' ∧
            w'.base.store.operations.get? oid = some o' ∧ o'.state = .unknown) ↔
          w.base.store.Recoverable g.host machine current.runId) ∧
        ((∀ rid, w.base.store.Abandoned machine w.base.now rid →
            w.base.store.Recoverable g.host machine rid) →
          ∃ s' o', recover g.host machine w.base.store w.base.now = .ok s' ∧
            s'.operations.get? oid = some o' ∧ o'.state = .unknown)) := by
  obtain ⟨base, sound⟩ := gateway_base h
  have serial := gateway_serial h oid plain
  refine ⟨serial.once, fun a w' o o' step ho ho' changed => ?_, fun crashed => ?_⟩
  · cases GatewayWorld.next_stepped step with
    | transacted outside hnext =>
        have writes := (step_writes base (Discipline.outside_meets (g := g) outside) hnext).2
        obtain ⟨o₁, ho₁, same⟩ := writes.exchange_kept ho'
        cases ho.symm.trans ho₁
        exact absurd same changed
    | @turned id input c progress store events hc turn =>
        rcases turn.exchange (sound id c hc) ho' with ⟨absent, -⟩ | ⟨o₁, ho₁, same | ⟨advances, -⟩⟩
        · cases ho.symm.trans absent
        · cases ho.symm.trans ho₁
          exact absurd same changed
        · cases ho.symm.trans ho₁
          refine ⟨id, input, c, rfl, hc, advances, fun round phase => ?_⟩
          exact (serial.live id o round .sent ⟨c, hc, phase⟩).2.1
    | _ =>
        cases ho.symm.trans ho'
        exact absurd rfl changed
  have orphaned := crashed.orphaned plain
  refine ⟨orphaned.idle, fun machine current name hcurrent running named abandoned => ?_⟩
  obtain ⟨current', hcurrent', -, at'⟩ := orphaned.started
  cases hcurrent.symm.trans hcurrent'
  obtain ⟨round, at'⟩ := at' running
  have unsaved := at'.unsaved (s := w.base.store) current.runId oid
  have notWrite : current.toolId ≠ .writeFile := fun h => by rw [named] at h; cases h
  have notPatch : current.toolId ≠ .applyPatch := fun h => by rw [named] at h; cases h
  have effectful := plain.effectful current hcurrent
  have leased := reachable_leased base
  refine ⟨?_, fun recoverable => ?_⟩
  · have ⟨run, _, _, hrun, listed, _⟩ := abandoned
    rw [← recoverRun_commits hrun abandoned]
    constructor
    · rintro ⟨w', -, step, -, -⟩
      obtain ⟨s', commits, -⟩ := (recoverRun_step hrun listed).mp step
      exact ⟨s', commits⟩
    · rintro ⟨s', commits⟩
      obtain ⟨o', ho', -, unknown⟩ := recoverRun_loses abandoned hrun commits hcurrent rfl running
        unsaved notWrite notPatch effectful
      exact ⟨_, o', (recoverRun_step hrun listed).mpr ⟨s', commits, rfl⟩, ho', unknown⟩
  · obtain ⟨s', commits⟩ := recover_commits leased recoverable
    obtain ⟨o', ho', unknown⟩ := recover_loses leased abandoned commits hcurrent running unsaved
      notWrite notPatch effectful
    exact ⟨s', o', commits, ho', unknown⟩

namespace Sample

/-- The form that the server of the tool wants. -/
def wanted : PendingInput := ⟨"name?", "schema", "request", "forms", 7, 1, 900000⟩

/-- The server asks for the form, the run waits, the user answers, and the answer is sent on. -/
def answered : List GatewayAction :=
  [.turn 1 { env := surroundings, fresh := 100, reply := .input wanted },
    .turn 1 { env := surroundings },
    .transact (.settle machine (context 20 1)
      { kind := .waiting, runId := 10, inputRevision := 2
        checkpointRef := some ⟨5, 1, .langchainV1⟩
        interruptRefs := [⟨⟨5, 1, 0, .user 100⟩, ⟨5, 1, .langchainV1⟩⟩] }),
    .transact (.respond 1 100 ⟨2, ⟨"name", none⟩, none⟩),
    .transact (Action.claim ⟨1, 1⟩ 21),
    .enter 1 (context 21 2) ⟨10, 1, 1⟩ (.named "mcp") "args" prepared] ++
  List.replicate 5 (.turn 1 { env := surroundings, schemaHash := "forms", configRevision := 1 })

/-- The request of a round is in flight. -/
def inFlight (oid : OperationId) (round : Nat) : Phase → Bool
  | .working oid' _ round' .sent => oid' = oid && round' = round
  | _ => false

theorem inFlight_eq_true {oid : OperationId} {round : Nat} {phase : Phase}
    (h : inFlight oid round phase = true) : ∃ o, phase = .working oid o round .sent := by
  rw [inFlight.eq_def] at h
  split at h
  · obtain ⟨rfl, rfl⟩ : _ ∧ _ := by simpa using h
    exact ⟨_, rfl⟩
  · cases h

/-- A worker that has been started again has registered the built-in tools, and no tool of a
server. -/
def restarted : Machine := { machine with registered := fun tool _ => tool ≠ .named "mcp" }

/-- A process that has registered every tool can decide every operation. -/
theorem recoverable_machine (s : Store) (rid : RunId) : s.Recoverable tools.host machine rid where
  reaped := rfl
  known _ o _ _ _ _ _ := by
    show (if o.toolId.waits = true then some _ else some _ : Option ToolSpec).isSome = true
    split <;> rfl

/-- No tool of the installation that a run calls reads. -/
theorem plain_of_named {w : GatewayWorld} {o : Operation}
    (trace : ∀ e ∈ w.trace, ¬e.Confirms 100) (ho : w.base.store.operations.get? 100 = some o)
    (named : o.toolId = .named "mcp") (revision : o.toolRevision = "1") : w.Plain tools 100 := by
  refine ⟨trace, fun o' ho' spec registered => ?_⟩
  cases ho.symm.trans ho'
  rw [named, revision] at registered
  cases registered
  decide

end Sample

/-- The answer to the form is in flight when the process of the call dies.  A process that has
registered the tool recovers the run. -/
theorem exchanged_once_lost : ∃ (w w' : GatewayWorld) (current o' : Operation),
    (∀ round, w.trace.count (.sent 100 round) ≤ 1) ∧ w.trace.count (.sent 100 1) = 1 ∧
    w.base.store.operations.get? 100 = some current ∧ current.state = .running ∧
    (gatewaySystem Sample.tools).step w (.transact (.recoverRun Sample.machine current.runId)) w' ∧
    w'.base.store.operations.get? 100 = some o' ∧ o'.state = .unknown := by
  let next := GatewayWorld.next Sample.tools
  let event : ToolEvent :=
    .invoked 100 ⟨10, 1, 1⟩ ⟨.named "mcp", "1", "builtin", .externalWrite, [], true⟩
  have run : (System.runs next Sample.gatewayStart
      (Sample.called ++ Sample.turns 7 ++ Sample.answered)).any (fun w₀ =>
        ((w₀.calls 1).any fun c => Sample.inFlight 100 1 c.phase) &&
        (next w₀ (.leave 1)).any fun w₁ => (next w₁ (.transact (.tick 60000))).any fun w =>
          decide (w.trace = [.sent 100 1, .sent 100 0, event]) &&
          ((w.base.store.runs.get? 10).any fun run => decide (run.status ∈ recoverable) &&
            run.attemptId.any fun aid => (w.base.store.attempts.get? aid).any fun a =>
              decide (a.leaseExpiry ≤ w.base.now)) &&
          ((w.base.store.operations.get? 100).any fun o => decide (o.runId = 10 ∧
            o.state = .running ∧ o.toolId = .named "mcp" ∧ o.toolRevision = "1"))) = true := by
    decide +kernel
  simp only [Option.any_eq_true, Bool.and_eq_true, decide_eq_true_eq] at run
  obtain ⟨w₀, hw₀, ⟨c, hc, flying⟩, w₁, crash, w, ticks, ⟨trace, abandoned⟩, current, hcurrent,
    owner, running, named, revision⟩ := run
  obtain ⟨o, phase⟩ := Sample.inFlight_eq_true flying
  obtain ⟨run, hrun, listed, aid, attempt, a, ha, expired⟩ := abandoned
  have reach := Sample.gatewayReachable hw₀
  have path : (gatewaySystem Sample.tools).Path w₁ w := .tail .refl ticks
  have plain : w.Plain Sample.tools 100 := by
    refine Sample.plain_of_named (fun e he => ?_) hcurrent named revision
    rw [trace] at he
    simp only [List.mem_cons, List.not_mem_nil, or_false] at he
    rcases he with rfl | rfl | rfl <;> exact id
  obtain ⟨once, -, lost⟩ := exchanged_once ((reach.step crash).path path) plain
  obtain ⟨-, lost⟩ := lost ⟨w₀, w₁, 1, o, 1, reach, ⟨c, hc, phase⟩, crash, path⟩
  obtain ⟨w', o', step, ho', unknown⟩ := (lost Sample.machine current "mcp" hcurrent running named
    ⟨run, aid, a, owner ▸ hrun, listed, attempt, ha, expired, rfl⟩).1.mpr
    (Sample.recoverable_machine _ _)
  refine ⟨w, w', current, o', once, ?_, hcurrent, running, step, ho', unknown⟩
  rw [trace]
  decide

/-- The call itself is in flight when the process of the worker dies.  The worker that is started
again has not registered the tool: its `recover` raises, and the operation goes on running. -/
theorem exchanged_once_unregistered : ∃ (w : GatewayWorld) (current : Operation),
    (gatewaySystem Sample.tools).Reachable w ∧ w.Plain Sample.tools 100 ∧
    w.Crashed Sample.tools 100 ∧ w.trace.count (.sent 100 0) = 1 ∧
    w.base.store.operations.get? 100 = some current ∧ current.state = .running ∧
    current.toolId = .named "mcp" ∧
    w.base.store.Abandoned Sample.restarted w.base.now current.runId ∧
    recover Sample.tools.host Sample.restarted w.base.store w.base.now =
      .error { code := .toolUnavailable, message := "工具不可用: mcp", status := 422 } ∧
    ∀ w', ¬(gatewaySystem Sample.tools).step w
      (.transact (.recoverRun Sample.restarted current.runId)) w' := by
  let next := GatewayWorld.next Sample.tools
  let event : ToolEvent :=
    .invoked 100 ⟨10, 1, 1⟩ ⟨.named "mcp", "1", "builtin", .externalWrite, [], true⟩
  have run : (System.runs next Sample.gatewayStart (Sample.called ++ Sample.turns 7)).any (fun w₀ =>
        ((w₀.calls 1).any fun c => Sample.inFlight 100 0 c.phase) &&
        (next w₀ (.leave 1)).any fun w₁ => (next w₁ (.transact (.tick 60000))).any fun w =>
          decide (w.trace = [.sent 100 0, event]) &&
          ((w.base.store.runs.get? 10).any fun run => decide (run.status ∈ recoverable) &&
            run.attemptId.any fun aid => (w.base.store.attempts.get? aid).any fun a =>
              decide (a.leaseExpiry ≤ w.base.now)) &&
          ((w.base.store.operations.get? 100).any fun o => decide (o.runId = 10 ∧
            o.state = .running ∧ o.toolId = .named "mcp" ∧ o.toolRevision = "1")) &&
          (match recover Sample.tools.host Sample.restarted w.base.store w.base.now with
            | .error e => decide (e = ⟨.toolUnavailable, "工具不可用: mcp", 422⟩)
            | .ok _ => false) &&
          (next w (.transact (.recoverRun Sample.restarted 10))).isNone) = true := by
    decide +kernel
  simp only [Option.any_eq_true, Bool.and_eq_true, decide_eq_true_eq] at run
  obtain ⟨w₀, hw₀, ⟨c, hc, flying⟩, w₁, crash, w, ticks, ⟨⟨⟨trace, abandoned⟩, current, hcurrent,
    owner, running, named, revision⟩, raises⟩, stuck⟩ := run
  obtain ⟨o, phase⟩ := Sample.inFlight_eq_true flying
  obtain ⟨run, hrun, listed, aid, attempt, a, ha, expired⟩ := abandoned
  have reach := Sample.gatewayReachable hw₀
  have path : (gatewaySystem Sample.tools).Path w₁ w := .tail .refl ticks
  have plain : w.Plain Sample.tools 100 := by
    refine Sample.plain_of_named (fun e he => ?_) hcurrent named revision
    rw [trace] at he
    simp only [List.mem_cons, List.not_mem_nil, or_false] at he
    rcases he with rfl | rfl <;> exact id
  refine ⟨w, current, (reach.step crash).path path, plain,
    ⟨w₀, w₁, 1, o, 0, reach, ⟨c, hc, phase⟩, crash, path⟩, ?_, hcurrent, running, named,
    ⟨run, aid, a, owner ▸ hrun, listed, attempt, ha, expired, rfl⟩, ?_, fun w' step => ?_⟩
  · rw [trace]
    decide
  · split at raises
    · rename_i result
      rw [result, of_decide_eq_true raises]
    · cases raises
  · rw [owner] at step
    rw [show next w _ = some w' from step] at stuck
    cases stuck

end MiHarness

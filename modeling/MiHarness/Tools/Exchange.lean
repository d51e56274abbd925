import MiHarness.Scheduler.Stuck
import MiHarness.Tools.Authorized

/-!
# Exchanges with a server

A call of a tool of a server goes through rounds.  The request of round `0` calls the tool, and
the request of a later round brings the answer of the user.  The row of the operation keeps the
round and whether it awaits the answer; an update of the row that names a round compares the
revision of the row with the one the caller has read.  So one call at most is at work for an
operation, and it is in the round that the row names (`GatewayWorld.Serial`).
-/

namespace MiHarness

open Library

variable {g : Installation} {c : Call} {s s' : Store} {now : Time} {input : Input} {D : Discipline}

/-! ## Rounds -/

/-- The exchange of the operation is in the round, whose request is on its way or has been. -/
def Operation.AtRound (o : Operation) : Nat → Prop
  | 0 => o.metadata.protocolContinuation = none
  | round + 1 => ∃ k, o.metadata.protocolContinuation = some k ∧ k.round = round + 1 ∧
      k.status = .sending

/-- The request of the round may have been sent. -/
def Operation.Reached (o : Operation) (round : Nat) : Prop :=
  round = 0 ∨ ∃ k, o.metadata.protocolContinuation = some k ∧
    (round < k.round ∨ round = k.round ∧ k.status = .sending)

theorem Operation.AtRound.of_sending {o : Operation} {k : Continuation}
    (hk : o.metadata.protocolContinuation = some k) (later : 0 < k.round)
    (sending : k.status = .sending) : o.AtRound k.round := by
  obtain ⟨round, same⟩ := Nat.exists_eq_succ_of_ne_zero (Nat.ne_of_gt later)
  rw [same]
  exact ⟨k, hk, same, sending⟩

theorem Operation.AtRound.next {o : Operation} {round : Nat} (h : o.AtRound round) :
    o.nextRound = round + 1 := by
  cases round with
  | zero =>
      rw [nextRound, show o.metadata.protocolContinuation = none from h]
      rfl
  | succ round =>
      obtain ⟨k, hk, same, -⟩ := h
      rw [nextRound, hk, ← same]
      rfl

theorem Operation.AtRound.unique {o : Operation} {round round' : Nat} (h : o.AtRound round)
    (h' : o.AtRound round') : round = round' := by
  have same := h.next.symm.trans h'.next
  omega

theorem Operation.AtRound.reached {o : Operation} {round : Nat} (h : o.AtRound round) :
    o.Reached round := by
  cases round with
  | zero => exact .inl rfl
  | succ round =>
      obtain ⟨k, hk, same, sending⟩ := h
      exact .inr ⟨k, hk, .inr ⟨same.symm, sending⟩⟩

/-- An exchange that is in a round does not await the user. -/
theorem Operation.AtRound.not_awaiting {o : Operation} {round : Nat} {k : Continuation}
    (h : o.AtRound round) (hk : o.metadata.protocolContinuation = some k) : k.status = .sending := by
  cases round with
  | zero =>
      cases hk.symm.trans h
  | succ round =>
      obtain ⟨k', hk', -, sending⟩ := h
      cases hk.symm.trans hk'
      exact sending

theorem Operation.AtRound.congr {o o' : Operation} {round : Nat} (h : o.AtRound round)
    (same : o'.metadata.protocolContinuation = o.metadata.protocolContinuation) :
    o'.AtRound round := by
  cases round with
  | zero => exact same.trans h
  | succ round =>
      obtain ⟨k, hk, at'⟩ := h
      exact ⟨k, same.trans hk, at'⟩

theorem Operation.Reached.congr {o o' : Operation} {round : Nat} (h : o.Reached round)
    (same : o'.metadata.protocolContinuation = o.metadata.protocolContinuation) :
    o'.Reached round := by
  rcases h with first | ⟨k, hk, reached⟩
  · exact .inl first
  · exact .inr ⟨k, same.trans hk, reached⟩

/-! ## The steps of an exchange -/

/-- How a call takes the exchange of its operation further, from the row it has read: the server
has asked for input, or the answer of the user is being sent. -/
inductive Phase.Advances (oid : OperationId) (o o' : Operation) : Phase → Prop where
  | suspended {round : Nat} {k : Continuation} :
      o'.metadata.protocolContinuation = some k → k.round = o.nextRound →
      k.status = .awaitingInput → Advances oid o o' (.working oid o round .sent)
  | answered {k : Continuation} :
      o.metadata.protocolContinuation = some k → k.status = .awaitingInput →
      o'.metadata.protocolContinuation = some { k with status := .sending } →
      Advances oid o o' (.verified oid o)

theorem Phase.Advances.row {oid : OperationId} {o o' : Operation} {phase : Phase}
    (h : phase.Advances oid o o') : phase.executes = true ∧ phase.held = some o := by
  cases h <;> exact ⟨rfl, rfl⟩

theorem answeredExchange_eq_ok {ctx : ExecutionContext} {oid : OperationId} {o : Operation}
    {schemaHash : Hash} {configRevision : Nat} {k : Continuation} {iid : InteractionId}
    {i : Interaction}
    (h : answeredExchange s ctx oid o schemaHash configRevision = .ok (k, iid, i)) :
    o.metadata.protocolContinuation = some k ∧ k.status = .awaitingInput := by
  simp only [answeredExchange, bind_eq_ok, require_eq_ok, orThrow_eq_ok, exists_const] at h
  obtain ⟨k', hk', ⟨-, awaiting, -⟩, iid', -, i', -, -, h⟩ := h
  cases h
  exact ⟨hk', awaiting⟩

/-- A write that is none of an exchange leaves the exchanges alone. -/
theorem Write.exchange_kept (w : Write D now s s') (idle : ¬D.scope.exchanges) {oid : OperationId}
    {o' : Operation} (ho' : s'.operations.get? oid = some o') :
    D.scope.registers o' ∨ ∃ o, s.operations.get? oid = some o ∧
      o'.metadata.protocolContinuation = o.metadata.protocolContinuation := by
  cases w.operationEffect ho' with
  | kept ho => exact .inr ⟨o', ho, rfl⟩
  | added _ _ _ _ registers => exact .inl registers
  | @moved o patch ho move =>
      refine .inr ⟨o, ho, ?_⟩
      show (patch.metadata.getD o.metadata).protocolContinuation = _
      cases move with
      | stepped _ _ _ _ _ exchange => exact exchange.resolve_right idle
      | lost _ _ _ _ noted => rw [noted]; rfl
      | reconciled _ _ _ _ _ noted => rw [noted]; rfl
      | accepted _ _ _ _ exchange => exact exchange
  | @released o _ patch ho _ _ _ _ noted =>
      refine .inr ⟨o, ho, ?_⟩
      show (patch.metadata.getD o.metadata).protocolContinuation = _
      rw [noted]
      rfl
  | closed ho => exact .inr ⟨_, ho, rfl⟩

theorem Writes.exchange_kept {a : Action} (w : Writes (.outside g a) now s s') {oid : OperationId}
    {o' : Operation} (ho' : s'.operations.get? oid = some o') :
    ∃ o, s.operations.get? oid = some o ∧
      o'.metadata.protocolContinuation = o.metadata.protocolContinuation := by
  induction w generalizing o' with
  | refl => exact ⟨o', ho', rfl⟩
  | tail _ w ih =>
      rcases w.exchange_kept id ho' with registers | ⟨o₁, ho₁, same₁⟩
      · exact registers.elim
      · obtain ⟨o, ho, same⟩ := ih ho₁
        exact ⟨o, ho, same₁.trans same⟩

/-- A turn leaves the exchange of an operation alone, or takes it further from the row that the
call has read.  An operation that it registers has none. -/
theorem Call.Turn.exchange {progress : Progress} {events : List ToolEvent} (sound : c.Sound g s)
    (turn : c.Turn g s now input c.phase progress s' events) {oid : OperationId} {o' : Operation}
    (ho' : s'.operations.get? oid = some o') :
    s.operations.get? oid = none ∧ o'.metadata.protocolContinuation = none ∨
      ∃ o, s.operations.get? oid = some o ∧
        (o'.metadata.protocolContinuation = o.metadata.protocolContinuation ∨
          c.phase.Advances oid o o' ∧ o'.state = o.state) := by
  generalize hphase : c.phase = phase at turn
  have same : ∀ {oid₀ : OperationId} {patch : OperationPatch}, patch.metadata = none →
      (s.operations.modify oid₀ patch.apply).get? oid = some o' →
      ∃ o, s.operations.get? oid = some o ∧
        o'.metadata.protocolContinuation = o.metadata.protocolContinuation := by
    intro oid₀ patch noted h
    rw [Table.get?_modify] at h
    split at h
    · obtain ⟨o, ho, rfl⟩ := Option.map_eq_some_iff.mp h
      refine ⟨o, ho, ?_⟩
      show (patch.metadata.getD o.metadata).protocolContinuation = _
      rw [noted]
      rfl
    · exact ⟨o', h, rfl⟩
  have starts : ∀ {oid₀ o₀ binding policyRevision t}, c.phase = .rechecked oid₀ o₀ binding policyRevision →
      startOperation s c.ctx oid₀ o₀ input.fresh binding policyRevision now = .ok t →
      t.operations.get? oid = some o' → ∃ o, s.operations.get? oid = some o ∧
        o'.metadata.protocolContinuation = o.metadata.protocolContinuation := by
    intro oid₀ o₀ binding policyRevision t rechecked starts h
    obtain ⟨ho₀, -, changed⟩ := sound.starts rechecked starts
    by_cases own : oid = oid₀
    · subst own
      rw [changed, Table.get?_modify_self, Table.get?_modify_self, ho₀] at h
      cases h
      exact ⟨o₀, ho₀, rfl⟩
    · rw [changed, Table.get?_modify_ne _ _ own, Table.get?_modify_ne _ _ own] at h
      exact ⟨o', h, rfl⟩
  have kept : (∃ o, s.operations.get? oid = some o ∧
      o'.metadata.protocolContinuation = o.metadata.protocolContinuation) →
      s.operations.get? oid = none ∧ o'.metadata.protocolContinuation = none ∨
        ∃ o, s.operations.get? oid = some o ∧
          (o'.metadata.protocolContinuation = o.metadata.protocolContinuation ∨
            phase.Advances oid o o' ∧ o'.state = o.state) :=
    fun ⟨o, ho, same⟩ => .inr ⟨o, ho, .inl same⟩
  cases turn with
  | registered prepares =>
      obtain ⟨-, ⟨-, rfl, -⟩ | ⟨-, rfl, rfl, operations, hinsert, rfl⟩⟩ :=
        Store.prepareOperation_eq_ok prepares
      · exact kept ⟨o', ho', rfl⟩
      · obtain ⟨absent, rows⟩ := Table.insert?_eq_some hinsert
        replace ho' : operations.get? oid = some o' := ho'
        rw [rows] at ho'
        split at ho'
        · rename_i new
          cases ho'
          exact .inl ⟨new ▸ absent, rfl⟩
        · exact kept ⟨o', ho', rfl⟩
  | asked _ asks | approved asks | unapproved asks =>
      obtain ⟨interactions, rfl⟩ := asks.operations
      exact kept ⟨o', ho', rfl⟩
  | granted start => exact kept (starts hphase start ho')
  | died start => exact kept (starts hphase start ho')
  | @suspended oid₀ o₀ round pending iid _ suspends =>
      obtain ⟨current, k, interactions, hcurrent, revision, -, awaiting, next, -, rfl⟩ :=
        suspendExchange_eq_ok suspends
      cases sound.current (by rw [hphase]; rfl) (by rw [hphase]; rfl) hcurrent revision
      by_cases own : oid = oid₀
      · subst own
        have row : (s.operations.modify oid _).get? oid = some o' := ho'
        rw [Table.get?_modify_self, hcurrent] at row
        cases row
        exact .inr ⟨o₀, hcurrent, .inr ⟨.suspended rfl next awaiting, rfl⟩⟩
      · have row : (s.operations.modify oid₀ _).get? oid = some o' := ho'
        rw [Table.get?_modify_ne _ _ own] at row
        exact kept ⟨o', row, rfl⟩
  | @answered oid₀ o₀ _ k iid i _ ready _ sends =>
      obtain ⟨hk, awaiting⟩ := answeredExchange_eq_ok ready
      obtain ⟨current, hcurrent, revision, rfl⟩ := sendExchange_eq_ok sends
      cases sound.current (by rw [hphase]; rfl) (by rw [hphase]; rfl) hcurrent revision
      by_cases own : oid = oid₀
      · subst own
        have row : (s.operations.modify oid _).get? oid = some o' := ho'
        rw [Table.get?_modify_self, hcurrent] at row
        cases row
        exact .inr ⟨o₀, hcurrent, .inr ⟨.answered hk awaiting rfl, rfl⟩⟩
      · have row : (s.operations.modify oid₀ _).get? oid = some o' := ho'
        rw [Table.get?_modify_ne _ _ own] at row
        exact kept ⟨o', row, rfl⟩
  | closed finishes | finished finishes =>
      obtain ⟨_, _, _, _, _, rfl⟩ := finishOperation_eq_ok finishes
      exact kept (same rfl ho')
  | _ => exact kept ⟨o', ho', rfl⟩

/-! ## Rows and calls -/

namespace GatewayWorld

variable {w w' : GatewayWorld}

/-- A call that executes keeps a row of a running operation. -/
def HoldsRunning (w : GatewayWorld) : Prop :=
  ∀ id c o, w.calls id = some c → c.phase.executes = true → c.phase.held = some o →
    o.state = .running

theorem HoldsRunning.turn {id : CallId} {phase : Phase} {events : List ToolEvent}
    (holds : w.HoldsRunning) (hc : w.calls id = some c) (sound : c.Sound g w.base.store)
    (turn : c.Turn g w.base.store w.base.now input c.phase (.next phase) s' events)
    (executes : phase.executes = true) {o : Operation} (held : phase.held = some o) :
    o.state = .running := by
  have before := fun o h h' => holds id c o hc h h'
  generalize hphase : c.phase = phase' at turn before
  cases turn with
  | resumed _ _ running =>
      cases held
      exact running
  | granted starts ho' =>
      cases held
      obtain ⟨o₁, ho₁, running, -⟩ := (startOperation_consumes starts).started
      cases ho'.symm.trans ho₁
      exact running
  | @answered _ o₀ _ _ _ _ _ _ _ sends ho' =>
      cases held
      obtain ⟨current, hcurrent, revision, rfl⟩ := sendExchange_eq_ok sends
      cases sound.current (by rw [hphase]; rfl) (by rw [hphase]; rfl) hcurrent revision
      replace ho' : (w.base.store.operations.modify _ _).get? _ = some o := ho'
      rw [Table.get?_modify_self, hcurrent] at ho'
      cases ho'
      exact before o₀ rfl rfl
  | pending => exact before o executes held
  | validated => exact before o rfl held
  | sent => exact before o rfl held
  | verified => exact before o rfl held
  | begun | suspended | reawaited => cases held
  | _ => cases executes

theorem Stepped.trace {a : GatewayAction} (step : w.Stepped g a w') :
    ∃ events, w'.trace = events ++ w.trace := by
  cases step with
  | transacted => exact ⟨_, rfl⟩
  | turned => exact ⟨_, rfl⟩
  | _ => exact ⟨[], rfl⟩

/-- The operation is of a tool with effects, and the user has not said that it was not executed. -/
structure Plain (g : Installation) (w : GatewayWorld) (oid : OperationId) : Prop where
  unconfirmed : ∀ e ∈ w.trace, ¬e.Confirms oid
  effectful : ∀ o, w.base.store.operations.get? oid = some o → g.Effectful o

theorem Plain.before {a : GatewayAction} {oid : OperationId} (plain : w'.Plain g oid)
    (step : w.Stepped g a w') (writes : Writes D now w.base.store w'.base.store) :
    w.Plain g oid where
  unconfirmed e he := by
    obtain ⟨events, trace⟩ := step.trace
    exact plain.unconfirmed e (trace ▸ List.mem_append_right _ he)
  effectful o ho := by
    obtain ⟨o', ho', later⟩ := writes.operation_later ho
    exact later.effectful (plain.effectful o' ho')

/-- An operation that has not started has no exchange. -/
def Blank (g : Installation) (w : GatewayWorld) : Prop :=
  ∀ oid o, w.Plain g oid → w.base.store.operations.get? oid = some o → o.state.unstarted = true →
    o.metadata.protocolContinuation = none

theorem Blank.step {a : GatewayAction} (reach : (system g.host).Reachable w.base)
    (sound : w.Sound g) (holds : w.HoldsRunning) (blank : w.Blank g) (step : w.Stepped g a w') :
    w'.Blank g := by
  intro oid o' plain ho' unstarted
  have before := plain.before step (step.writes reach sound)
  cases step with
  | @transacted a _ outside hnext =>
      have writes := (step_writes reach (Discipline.outside_meets (g := g) outside) hnext).2
      obtain ⟨o, ho, same⟩ := writes.exchange_kept ho'
      obtain ⟨o₁, ho₁, -, first | confirms⟩ :=
        writes.unstarted ho' (plain.effectful o' ho') unstarted
      · cases ho.symm.trans ho₁
        exact same.trans (blank oid o before ho first)
      · have member : .confirmed oid o₁ ∈ a.attested w.base.store ++ w.trace := by
          rw [a.attested_of_confirms confirms ho₁]
          exact List.mem_cons_self ..
        exact absurd rfl (plain.unconfirmed _ member)
  | @turned id input c progress store events hc turn =>
      have knows := sound id c hc
      rcases turn.exchange knows ho' with ⟨-, none⟩ | ⟨o, ho, same | ⟨advances, state⟩⟩
      · exact none
      · rcases (turn.changes knows).unstarted ho' unstarted with ⟨o₁, ho₁, -, first⟩ | absent
        · cases ho.symm.trans ho₁
          exact same.trans (blank oid o before ho first)
        · cases ho.symm.trans absent
      · obtain ⟨executes, held⟩ := advances.row
        rw [state, holds id c o hc executes held] at unstarted
        cases unstarted
  | _ => exact blank oid o' before ho' unstarted

/-- The rounds that an exchange has named count from one. -/
def Rounds (w : GatewayWorld) : Prop :=
  ∀ oid o k, w.base.store.operations.get? oid = some o →
    o.metadata.protocolContinuation = some k → 0 < k.round

theorem Rounds.step {a : GatewayAction} (reach : (system g.host).Reachable w.base)
    (sound : w.Sound g) (rounds : w.Rounds) (step : w.Stepped g a w') : w'.Rounds := by
  intro oid o' k ho' hk
  cases step with
  | transacted outside hnext =>
      have writes := (step_writes reach (Discipline.outside_meets (g := g) outside) hnext).2
      obtain ⟨o, ho, same⟩ := writes.exchange_kept ho'
      exact rounds oid o k ho (same.symm.trans hk)
  | @turned id input c progress store events hc turn =>
      rcases turn.exchange (sound id c hc) ho' with ⟨-, none⟩ | ⟨o, ho, same | ⟨advances, -⟩⟩
      · cases none.symm.trans hk
      · exact rounds oid o k ho (same.symm.trans hk)
      · generalize c.phase = phase at advances
        cases advances with
        | suspended hk' next =>
            cases hk'.symm.trans hk
            rw [next]
            exact Nat.succ_pos _
        | @answered k₀ hk₀ _ hk' =>
            cases hk'.symm.trans hk
            exact rounds oid o k₀ ho hk₀
  | _ => exact rounds oid o' k ho' hk

end GatewayWorld

/-- What holds of the rows and the calls in every run. -/
theorem gateway_exchanges {w : GatewayWorld} (h : (gatewaySystem g).Reachable w) :
    w.HoldsRunning ∧ w.Blank g ∧ w.Rounds := by
  refine h.invariant (I := fun w => w.HoldsRunning ∧ w.Blank g ∧ w.Rounds) (fun w start => ?_)
    fun w a w' hw ih step => ?_
  · obtain ⟨store, calls, -⟩ := start
    refine ⟨fun id c o hc => ?_, fun oid o _ ho => ?_, fun oid o k ho => ?_⟩
    · rw [calls] at hc
      cases hc
    · rw [store] at ho
      cases ho
    · rw [store] at ho
      cases ho
  · obtain ⟨holds, blank, rounds⟩ := ih
    obtain ⟨reach, sound⟩ := gateway_base hw
    have stepped := GatewayWorld.next_stepped step
    refine ⟨fun id' c' o hc' executes held => ?_, blank.step reach sound holds stepped,
      rounds.step reach sound stepped⟩
    cases stepped with
    | transacted | declined => exact holds id' c' o hc' executes held
    | entered =>
        rcases GatewayWorld.withCall_eq_some hc' with ⟨-, h⟩ | ⟨-, h⟩
        · cases h
          cases executes
        · exact holds id' c' o h executes held
    | @turned id input c progress store events hc turn =>
        rcases GatewayWorld.withCall_eq_some hc' with ⟨-, h⟩ | ⟨-, h⟩
        · cases progress with
          | next phase =>
              cases h
              exact holds.turn hc (sound id c hc) turn executes held
          | done | gone => cases h
        · exact holds id' c' o h executes held
    | left =>
        rcases GatewayWorld.withCall_eq_some hc' with ⟨-, h⟩ | ⟨-, h⟩
        · cases h
        · exact holds id' c' o h executes held

/-! ## One call at work -/

namespace GatewayWorld

variable {w w' : GatewayWorld}

/-- A call is at work for the operation. -/
def Works (w : GatewayWorld) (oid : OperationId) (id : CallId) (o : Operation) (round : Nat)
    (stage : Stage) : Prop :=
  ∃ c, w.calls id = some c ∧ c.phase = .working oid o round stage

def Invoked (w : GatewayWorld) (oid : OperationId) : Prop :=
  ∃ key spec, .invoked oid key spec ∈ w.trace

/-- At most one call is at work for the operation.  It is in the round that the row names and
sends the request of that round, which has not been sent before. -/
structure Serial (w : GatewayWorld) (oid : OperationId) : Prop where
  live : ∀ id o round stage, w.Works oid id o round stage → (round = 0 → w.Invoked oid) ∧
    o.AtRound round ∧ ∃ current, w.base.store.operations.get? oid = some current ∧ current.AtRound round
  single : ∀ id id' o o' round round' stage stage', w.Works oid id o round stage →
    w.Works oid id' o' round' stage' → id = id'
  fresh : ∀ id o round stage, w.Works oid id o round stage → stage ≠ .sent →
    .sent oid round ∉ w.trace
  reached : ∀ round, .sent oid round ∈ w.trace → (round = 0 → w.Invoked oid) ∧
    ∃ current, w.base.store.operations.get? oid = some current ∧ current.Reached round
  once : ∀ round, w.trace.count (.sent oid round) ≤ 1

/-- The step sends nothing for the operation. -/
def Silent (oid : OperationId) (events : List ToolEvent) : Prop :=
  ∀ round, .sent oid round ∉ events

theorem Silent.mem {oid : OperationId} {events trace : List ToolEvent} (silent : Silent oid events)
    {round : Nat} (h : .sent oid round ∈ events ++ trace) : .sent oid round ∈ trace :=
  (List.mem_append.mp h).resolve_left (silent round)

theorem Silent.count {oid : OperationId} {events : List ToolEvent} (silent : Silent oid events)
    (trace : List ToolEvent) (round : Nat) :
    (events ++ trace).count (.sent oid round) = trace.count (.sent oid round) := by
  rw [List.count_append, List.count_eq_zero.mpr (silent round), Nat.zero_add]

theorem Invoked.later {oid : OperationId} {events : List ToolEvent} (h : w.Invoked oid)
    (trace : w'.trace = events ++ w.trace) : w'.Invoked oid := by
  obtain ⟨key, spec, member⟩ := h
  exact ⟨key, spec, trace ▸ List.mem_append_right _ member⟩

/-- No call is at work, and the rows name no earlier round. -/
theorem Serial.idle {oid : OperationId} {events : List ToolEvent} (serial : w.Serial oid)
    (trace : w'.trace = events ++ w.trace) (silent : Silent oid events)
    (idle : ∀ id o round stage, ¬w'.Works oid id o round stage)
    (rows : ∀ round current, w.base.store.operations.get? oid = some current →
      current.Reached round → ∃ current', w'.base.store.operations.get? oid = some current' ∧
        current'.Reached round) : w'.Serial oid where
  live id o round stage works := absurd works (idle id o round stage)
  single id _ o _ round _ stage _ works := absurd works (idle id o round stage)
  fresh id o round stage works := absurd works (idle id o round stage)
  reached round h := by
    obtain ⟨invoked, current, hcurrent, reached⟩ := serial.reached round (silent.mem (trace ▸ h))
    exact ⟨fun first => (invoked first).later trace, rows round current hcurrent reached⟩
  once round := by
    rw [trace, silent.count]
    exact serial.once round

/-- The calls at work go on as they were, and so does the exchange. -/
theorem Serial.keep {oid : OperationId} {events : List ToolEvent} (serial : w.Serial oid)
    (trace : w'.trace = events ++ w.trace) (silent : Silent oid events)
    (works : ∀ id o round stage, w'.Works oid id o round stage →
      ∃ stage₀, w.Works oid id o round stage₀ ∧ (stage ≠ .sent → stage₀ ≠ .sent))
    (rows : ∀ current, w.base.store.operations.get? oid = some current →
      ∃ current', w'.base.store.operations.get? oid = some current' ∧
        current'.metadata.protocolContinuation = current.metadata.protocolContinuation) :
    w'.Serial oid where
  live id o round stage h := by
    obtain ⟨stage₀, before, -⟩ := works id o round stage h
    obtain ⟨invoked, held, current, hcurrent, at'⟩ := serial.live id o round stage₀ before
    obtain ⟨current', hcurrent', same⟩ := rows current hcurrent
    exact ⟨fun first => (invoked first).later trace, held, current', hcurrent', at'.congr same⟩
  single id id' o o' round round' stage stage' h h' := by
    obtain ⟨stage₀, before, -⟩ := works id o round stage h
    obtain ⟨stage₁, before', -⟩ := works id' o' round' stage' h'
    exact serial.single id id' o o' round round' stage₀ stage₁ before before'
  fresh id o round stage h unsent sent := by
    obtain ⟨stage₀, before, unsent₀⟩ := works id o round stage h
    exact serial.fresh id o round stage₀ before (unsent₀ unsent) (silent.mem (trace ▸ sent))
  reached round h := by
    obtain ⟨invoked, current, hcurrent, reached⟩ := serial.reached round (silent.mem (trace ▸ h))
    obtain ⟨current', hcurrent', same⟩ := rows current hcurrent
    exact ⟨fun first => (invoked first).later trace, current', hcurrent', reached.congr same⟩
  once round := by
    rw [trace, silent.count]
    exact serial.once round

/-- A call gets to work where none was, in a round whose request has not been sent. -/
theorem Serial.begin {oid : OperationId} {events : List ToolEvent} (id : CallId) (o : Operation)
    (round : Nat) (serial : w.Serial oid) (trace : w'.trace = events ++ w.trace)
    (silent : Silent oid events)
    (works : ∀ id' o' round' stage, w'.Works oid id' o' round' stage →
      id' = id ∧ o' = o ∧ round' = round)
    (invoked : round = 0 → w'.Invoked oid) (row : w'.base.store.operations.get? oid = some o)
    (at' : o.AtRound round) (unsent : .sent oid round ∉ w.trace)
    (rows : ∀ round current, w.base.store.operations.get? oid = some current →
      current.Reached round → o.Reached round) : w'.Serial oid where
  live id' o' round' stage h := by
    obtain ⟨rfl, rfl, rfl⟩ := works id' o' round' stage h
    exact ⟨invoked, at', o', row, at'⟩
  single id' id'' o' o'' round' round'' stage stage' h h' :=
    (works id' o' round' stage h).1.trans (works id'' o'' round'' stage' h').1.symm
  fresh id' o' round' stage h _ sent := by
    obtain ⟨-, -, rfl⟩ := works id' o' round' stage h
    exact unsent (silent.mem (trace ▸ sent))
  reached round' h := by
    obtain ⟨first, current, hcurrent, reached⟩ := serial.reached round' (silent.mem (trace ▸ h))
    exact ⟨fun zero => (first zero).later trace, o, row, rows round' current hcurrent reached⟩
  once round' := by
    rw [trace, silent.count]
    exact serial.once round'

/-- The call at work sends the request of its round. -/
theorem Serial.send {oid : OperationId} {id : CallId} {o : Operation} {round : Nat}
    (serial : w.Serial oid) (before : w.Works oid id o round .validated)
    (trace : w'.trace = .sent oid round :: w.trace)
    (works : ∀ id' o' round' stage, w'.Works oid id' o' round' stage →
      id' = id ∧ o' = o ∧ round' = round ∧ stage = .sent ∨ id' ≠ id ∧ w.Works oid id' o' round' stage)
    (rows : w'.base.store.operations = w.base.store.operations) : w'.Serial oid := by
  obtain ⟨invoked, held, current, hcurrent, at'⟩ := serial.live id o round .validated before
  replace trace : w'.trace = [.sent oid round] ++ w.trace := trace
  replace invoked : round = 0 → w'.Invoked oid := fun first => (invoked first).later trace
  have row : w'.base.store.operations.get? oid = some current := rows ▸ hcurrent
  have only : ∀ id' o' round' stage, w'.Works oid id' o' round' stage →
      id' = id ∧ o' = o ∧ round' = round ∧ stage = .sent := by
    intro id' o' round' stage h
    rcases works id' o' round' stage h with same | ⟨other, still⟩
    · exact same
    · exact absurd (serial.single id' id o' o round' round stage .validated still before) other
  refine ⟨fun id' o' round' stage h => ?_, fun id' id'' o' o'' round' round'' stage stage' h h' => ?_,
    fun id' o' round' stage h unsent => ?_, fun round' h => ?_, fun round' => ?_⟩
  · obtain ⟨-, rfl, rfl, -⟩ := only id' o' round' stage h
    exact ⟨invoked, held, current, row, at'⟩
  · exact (only id' o' round' stage h).1.trans (only id'' o'' round'' stage' h').1.symm
  · exact absurd (only id' o' round' stage h).2.2.2 unsent
  · rw [trace, List.singleton_append] at h
    rcases List.mem_cons.mp h with same | earlier
    · cases same
      exact ⟨invoked, current, row, at'.reached⟩
    · obtain ⟨first, current', hcurrent', reached⟩ := serial.reached round' earlier
      cases hcurrent.symm.trans hcurrent'
      exact ⟨fun zero => (first zero).later trace, current, row, reached⟩
  · have unsent := serial.fresh id o round .validated before (by decide)
    rw [trace, List.singleton_append, List.count_cons]
    split
    · rename_i same
      cases eq_of_beq same
      rw [List.count_eq_zero.mpr unsent]
    · exact serial.once round'

/-- The world after a turn of a call. -/
def turned (w : GatewayWorld) (id : CallId) (c : Call) (progress : Progress) (store : Store)
    (events : List ToolEvent) : GatewayWorld :=
  { base := { w.base with store }, calls := w.withCall id (afterPhase c progress)
    trace := events ++ w.trace }

/-- A call that is at work after a turn got to its phase by the turn, or is another one. -/
theorem Works.of_turn {oid : OperationId} {id id' : CallId} {c : Call} {progress : Progress}
    {store : Store} {events : List ToolEvent} {o : Operation} {round : Nat} {stage : Stage}
    (h : (w.turned id c progress store events).Works oid id' o round stage) :
    id' = id ∧ progress = .next (.working oid o round stage) ∨
      id' ≠ id ∧ w.Works oid id' o round stage := by
  obtain ⟨c', hc', phase⟩ := h
  rcases withCall_eq_some hc' with ⟨same, h⟩ | ⟨other, h⟩
  · cases progress with
    | next phase' =>
        cases h
        exact .inl ⟨same, congrArg Progress.next phase⟩
    | done | gone => cases h
  · exact .inr ⟨other, c', h, phase⟩

/-- A turn by which the call does not get to work, and does not leave it for an answer. -/
theorem Serial.turn {oid : OperationId} {id : CallId} {c : Call} {progress : Progress}
    {store : Store} {events : List ToolEvent} (serial : w.Serial oid) (hc : w.calls id = some c)
    (silent : Silent oid events)
    (works : ∀ o round stage, progress = .next (.working oid o round stage) →
      ∃ stage₀, c.phase = .working oid o round stage₀ ∧ (stage ≠ .sent → stage₀ ≠ .sent))
    (rows : ∀ current, w.base.store.operations.get? oid = some current →
      ∃ current', store.operations.get? oid = some current' ∧
        current'.metadata.protocolContinuation = current.metadata.protocolContinuation) :
    (w.turned id c progress store events).Serial oid := by
  refine serial.keep rfl silent (fun id' o round stage h => ?_) rows
  rcases h.of_turn with ⟨rfl, next⟩ | ⟨-, still⟩
  · obtain ⟨stage₀, phase, unsent⟩ := works o round stage next
    exact ⟨stage₀, ⟨c, hc, phase⟩, unsent⟩
  · exact ⟨stage, still, fun unsent => unsent⟩

/-- Where an exchange awaits the user, no call is at work. -/
theorem Serial.not_awaiting {oid : OperationId} {o : Operation} {k : Continuation}
    (serial : w.Serial oid) (ho : w.base.store.operations.get? oid = some o)
    (hk : o.metadata.protocolContinuation = some k) (awaiting : k.status = .awaitingInput) :
    ∀ id o' round stage, ¬w.Works oid id o' round stage := by
  intro id o' round stage works
  obtain ⟨-, -, current, hcurrent, at'⟩ := serial.live id o' round stage works
  cases ho.symm.trans hcurrent
  cases awaiting.symm.trans (at'.not_awaiting hk)

/-- An operation that has not started has not been invoked. -/
theorem Plain.uninvoked {oid : OperationId} {o : Operation} (plain : w.Plain g oid)
    (guarded : w.Guarded g) (ho : w.base.store.operations.get? oid = some o)
    (unstarted : o.state.unstarted = true) : ¬w.Invoked oid := by
  rintro ⟨key, spec, member⟩
  obtain ⟨o', ho', -, registered⟩ := guarded.invoked oid key spec member
  cases ho.symm.trans ho'
  have effectful := plain.effectful o ho
  have unspent := guarded.unspent oid o ho effectful unstarted
  obtain ⟨later, earlier, split⟩ := List.append_of_mem member
  rw [split] at unspent
  obtain ⟨r, hr, confirms⟩ := reset_of_not_spent unspent ⟨rfl, effectful spec registered⟩
  exact plain.unconfirmed r (split ▸ List.mem_append_left _ hr) confirms

/-! ## The steps of the gateway -/

/-- A transaction that no call makes leaves the exchange as it was. -/
theorem Serial.transacted {a : Action} {base : World} {oid : OperationId} (serial : w.Serial oid)
    (reach : (system g.host).Reachable w.base) (outside : a.outside = true)
    (hnext : w.base.next g.host a = some base) :
    ({ w with base, trace := a.attested w.base.store ++ w.trace } : GatewayWorld).Serial oid := by
  have writes := (step_writes reach (Discipline.outside_meets (g := g) outside) hnext).2
  refine serial.keep rfl (fun round h => ?_)
    (fun id o round stage h => ⟨stage, h, fun unsent => unsent⟩) fun current hcurrent => ?_
  · obtain ⟨_, _, h, -⟩ := a.mem_attested h
    cases h
  · obtain ⟨current', hcurrent', -⟩ := writes.operation_later hcurrent
    obtain ⟨current₁, hcurrent₁, same⟩ := writes.exchange_kept hcurrent'
    cases hcurrent.symm.trans hcurrent₁
    exact ⟨current', hcurrent', same⟩

/-- A call that begins, or one that is lost. -/
theorem Serial.called {id : CallId} {call : Option Call} {oid : OperationId} (serial : w.Serial oid)
    (idle : ∀ c o round stage, call = some c → c.phase ≠ .working oid o round stage) :
    ({ w with calls := w.withCall id call } : GatewayWorld).Serial oid := by
  refine serial.keep (List.nil_append _).symm (fun _ h => by cases h)
    (fun id' o round stage h => ?_) fun current hcurrent => ⟨current, hcurrent, rfl⟩
  obtain ⟨c', hc', phase⟩ := h
  rcases withCall_eq_some hc' with ⟨-, h⟩ | ⟨-, h⟩
  · exact absurd phase (idle c' o round stage h)
  · exact ⟨stage, ⟨c', h, phase⟩, fun unsent => unsent⟩

/-- The grant that starts the operation. -/
theorem Serial.granted {oid : OperationId} {id : CallId} {o₀ o' : Operation}
    {binding : ApprovalBinding} {policyRevision : Nat} (serial : w.Serial oid)
    (knows : c.Sound g w.base.store) (plain : w.Plain g oid) (guarded : w.Guarded g)
    (blank : w.Blank g) (hphase : c.phase = .rechecked oid o₀ binding policyRevision)
    (starts : startOperation w.base.store c.ctx oid o₀ input.fresh binding policyRevision
      w.base.now = .ok s') (ho' : s'.operations.get? oid = some o')
    (rows : ∀ current, w.base.store.operations.get? oid = some current →
      ∃ current', s'.operations.get? oid = some current' ∧
        current'.metadata.protocolContinuation = current.metadata.protocolContinuation) :
    (w.turned id c (.next (.working oid o' 0 .ready)) s' [.invoked oid c.key c.spec]).Serial oid := by
  obtain ⟨ho₀, unstarted, -⟩ := knows.starts hphase starts
  have uninvoked := plain.uninvoked guarded ho₀ unstarted
  have none := blank oid o₀ plain ho₀ unstarted
  obtain ⟨current, hcurrent, same⟩ := rows o₀ ho₀
  cases ho'.symm.trans hcurrent
  refine serial.begin id o' 0 rfl (fun round h => by cases List.mem_singleton.mp h)
    (fun id' o₁ round stage h => ?_) (fun _ => ⟨_, _, List.mem_cons_self ..⟩) ho'
    (same.trans none) (fun sent => uninvoked ((serial.reached 0 sent).1 rfl))
    fun round current hcurrent reached => ?_
  · rcases h.of_turn with ⟨same, next⟩ | ⟨-, still⟩
    · cases next
      exact ⟨same, rfl, rfl⟩
    · obtain ⟨invoked, -, current, hcurrent, at'⟩ := serial.live id' o₁ round stage still
      cases ho₀.symm.trans hcurrent
      exact absurd (invoked (at'.unique none)) uninvoked
  · cases ho₀.symm.trans hcurrent
    exact reached.congr same

/-- The answer of the user is being sent. -/
theorem Serial.answered {oid : OperationId} {id : CallId} {o₀ o' : Operation} {k : Continuation}
    {iid : InteractionId} {i : Interaction} (serial : w.Serial oid) (rounds : w.Rounds)
    (knows : c.Sound g w.base.store) (hphase : c.phase = .verified oid o₀)
    (ready : answeredExchange w.base.store c.ctx oid o₀ input.schemaHash input.configRevision =
      .ok (k, iid, i))
    (sends : sendExchange w.base.store c.ctx oid o₀ k w.base.now = .ok s')
    (ho' : s'.operations.get? oid = some o') :
    (w.turned id c (.next (.working oid o' k.round .ready)) s' []).Serial oid := by
  obtain ⟨hk, awaiting⟩ := answeredExchange_eq_ok ready
  obtain ⟨current, hcurrent, revision, rfl⟩ := sendExchange_eq_ok sends
  cases knows.current (by rw [hphase]; rfl) (by rw [hphase]; rfl) hcurrent revision
  have row : (w.base.store.operations.modify oid _).get? oid = some o' := ho'
  rw [Table.get?_modify_self, hcurrent] at row
  cases row
  have later := rounds oid o₀ k hcurrent hk
  -- the rounds whose requests may have been sent are those before the one that is answered
  have passed : ∀ round, o₀.Reached round → round < k.round := by
    rintro round (rfl | ⟨k', hk', less | ⟨-, sending⟩⟩)
    · exact later
    · cases hk.symm.trans hk'
      exact less
    · cases hk.symm.trans hk'
      cases awaiting.symm.trans sending
  refine serial.begin id _ k.round rfl (fun _ h => by cases h) (fun id' o₁ round stage h => ?_)
    (fun first => absurd first (Nat.ne_of_gt later)) ho'
    (.of_sending (k := { k with status := .sending }) rfl later rfl) (fun sent => ?_)
    fun round current₁ hcurrent₁ reached => ?_
  · rcases h.of_turn with ⟨same, next⟩ | ⟨-, still⟩
    · cases next
      exact ⟨same, rfl, rfl⟩
    · exact absurd still (serial.not_awaiting hcurrent hk awaiting id' o₁ round stage)
  · obtain ⟨-, current₁, hcurrent₁, reached⟩ := serial.reached k.round sent
    cases hcurrent.symm.trans hcurrent₁
    exact absurd (passed k.round reached) (Nat.lt_irrefl _)
  · cases hcurrent.symm.trans hcurrent₁
    exact .inr ⟨_, rfl, .inl (passed round reached)⟩

/-- The server has asked for input. -/
theorem Serial.suspended {oid : OperationId} {id : CallId} {o₀ : Operation} {round : Nat}
    {pending : PendingInput} {iid : InteractionId} (serial : w.Serial oid)
    (hc : w.calls id = some c) (knows : c.Sound g w.base.store)
    (hphase : c.phase = .working oid o₀ round .sent)
    (suspends : suspendExchange w.base.store c.ctx oid o₀ pending input.fresh w.base.now =
      .ok (iid, s')) : (w.turned id c (.next (.waiting oid iid round)) s' []).Serial oid := by
  obtain ⟨current, k, interactions, hcurrent, revision, -, -, next, -, rfl⟩ :=
    suspendExchange_eq_ok suspends
  cases knows.current (by rw [hphase]; rfl) (by rw [hphase]; rfl) hcurrent revision
  refine serial.idle rfl (fun _ h => by cases h) (fun id' o round' stage h => ?_)
    fun round' current₁ hcurrent₁ reached => ?_
  · rcases h.of_turn with ⟨-, next⟩ | ⟨other, still⟩
    · cases next
    · exact other (serial.single id' id o o₀ round' round stage .sent still ⟨c, hc, hphase⟩)
  · cases hcurrent.symm.trans hcurrent₁
    refine ⟨OperationPatch.apply
      { metadata := some { o₀.metadata with protocolContinuation := some k } } o₀, ?_, ?_⟩
    · show (w.base.store.operations.modify oid _).get? oid = _
      rw [Table.get?_modify_self, hcurrent]
      rfl
    · refine .inr ⟨k, rfl, .inl ?_⟩
      rw [next, Operation.nextRound]
      rcases reached with rfl | ⟨k', hk', less⟩
      · omega
      · rw [hk', Option.map_some, Option.getD_some]
        omega

/-- The request of the round is sent. -/
theorem Serial.sent {oid : OperationId} {id : CallId} {o₀ : Operation} {round : Nat}
    (serial : w.Serial oid) (hc : w.calls id = some c)
    (hphase : c.phase = .working oid o₀ round .validated) :
    (w.turned id c (.next (.working oid o₀ round .sent)) w.base.store [.sent oid round]).Serial
      oid := by
  refine serial.send ⟨c, hc, hphase⟩ rfl (fun id' o' round' stage h => ?_) rfl
  rcases h.of_turn with ⟨same, next⟩ | ⟨other, still⟩
  · cases next
    exact .inl ⟨same, rfl, rfl, rfl⟩
  · exact .inr ⟨other, still⟩

/-- A turn of a call. -/
theorem Serial.turns {oid : OperationId} {id : CallId} {progress : Progress}
    {events : List ToolEvent} (reach : (gatewaySystem g).Reachable w) (plain : w.Plain g oid)
    (serial : w.Serial oid) (hc : w.calls id = some c)
    (writes : Writes D now w.base.store s')
    (turn : c.Turn g w.base.store w.base.now input c.phase progress s' events) :
    (w.turned id c progress s' events).Serial oid := by
  obtain ⟨-, sound⟩ := gateway_base reach
  obtain ⟨-, blank, rounds⟩ := gateway_exchanges reach
  have knows := sound id c hc
  -- the exchange goes on as it was, unless the phase is one that takes it further
  have rows : (∀ o o', ¬c.phase.Advances oid o o') →
      ∀ current, w.base.store.operations.get? oid = some current →
        ∃ current', s'.operations.get? oid = some current' ∧
          current'.metadata.protocolContinuation = current.metadata.protocolContinuation := by
    intro plainly current hcurrent
    obtain ⟨current', hcurrent', -⟩ := writes.operation_later hcurrent
    rcases turn.exchange knows hcurrent' with ⟨absent, -⟩ | ⟨o, ho, same | ⟨advances, -⟩⟩
    · cases hcurrent.symm.trans absent
    · cases hcurrent.symm.trans ho
      exact ⟨current', hcurrent', same⟩
    · exact absurd advances (plainly o current')
  have unmoved : ∀ current, w.base.store.operations.get? oid = some current →
      ∃ current', w.base.store.operations.get? oid = some current' ∧
        current'.metadata.protocolContinuation = current.metadata.protocolContinuation :=
    fun current hcurrent => ⟨current, hcurrent, rfl⟩
  generalize hphase : c.phase = phase at turn
  cases turn with
  | @granted oid₀ o₀ o' _ _ _ starts ho' =>
      have rows := rows fun _ _ h => by rw [hphase] at h; cases h
      by_cases own : oid = oid₀
      · subst own
        exact serial.granted knows plain (gateway_guarded reach) blank hphase starts ho' rows
      · refine serial.turn hc (fun round h => by cases List.mem_singleton.mp h)
          (fun o round stage h => ?_) rows
        cases h
        exact absurd rfl own
  | @answered oid₀ o₀ o' k _ _ _ ready _ sends ho' =>
      by_cases own : oid = oid₀
      · subst own
        exact serial.answered rounds knows hphase ready sends ho'
      · refine serial.turn hc (fun _ h => by cases h) (fun o round stage h => ?_)
          (rows fun _ _ h => ?_)
        · cases h
          exact absurd rfl own
        · rw [hphase] at h
          cases h
          exact own rfl
  | @suspended oid₀ o₀ round pending _ _ suspends =>
      by_cases own : oid = oid₀
      · subst own
        exact serial.suspended hc knows hphase suspends
      · refine serial.turn hc (fun _ h => by cases h) (fun o round stage h => by cases h)
          (rows fun _ _ h => ?_)
        rw [hphase] at h
        cases h
        exact own rfl
  | @sent oid₀ o₀ round =>
      by_cases own : oid = oid₀
      · subst own
        exact serial.sent hc hphase
      · refine serial.turn hc (fun round h => ?_) (fun o round stage h => ?_) unmoved
        · cases List.mem_singleton.mp h
          exact own rfl
        · cases h
          exact absurd rfl own
  | @validated oid₀ o₀ round =>
      refine serial.turn hc (fun _ h => by cases h) (fun o round stage h => ?_) unmoved
      cases h
      exact ⟨.ready, hphase, fun _ h => by cases h⟩
  | pending =>
      refine serial.turn hc (fun _ h => by cases h) (fun o round stage h => ?_) unmoved
      cases h
      exact ⟨stage, hphase, fun unsent => unsent⟩
  | begun =>
      exact serial.turn hc (fun _ h => by cases List.mem_singleton.mp h)
        (fun o round stage h => by cases h) unmoved
  | registered | asked | approved | unapproved | died | closed | finished =>
      exact serial.turn hc (fun _ h => by cases h) (fun o round stage h => by cases h)
        (rows fun _ _ h => by rw [hphase] at h; cases h)
  | _ =>
      exact serial.turn hc (fun _ h => by cases h) (fun o round stage h => by cases h) unmoved

theorem Serial.step {a : GatewayAction} {oid : OperationId}
    (reach : (gatewaySystem g).Reachable w) (plain : w'.Plain g oid)
    (serial : w.Plain g oid → w.Serial oid) (step : w.Stepped g a w') : w'.Serial oid := by
  obtain ⟨base, sound⟩ := gateway_base reach
  have writes := step.writes base sound
  have before := plain.before step writes
  replace serial := serial before
  cases step with
  | transacted outside hnext => exact serial.transacted base outside hnext
  | declined => exact serial
  | entered =>
      refine serial.called fun c o round stage h phase => ?_
      cases h
      cases phase
  | left => exact serial.called fun c o round stage h => by cases h
  | turned hc turn => exact serial.turns reach before hc writes turn

end GatewayWorld

theorem gateway_serial {w : GatewayWorld} (h : (gatewaySystem g).Reachable w) (oid : OperationId)
    (plain : w.Plain g oid) : w.Serial oid := by
  refine h.invariant (I := fun w => w.Plain g oid → w.Serial oid) (fun w start _ => ?_)
    (fun w a w' hw ih step plain => ?_) plain
  · obtain ⟨-, calls, trace⟩ := start
    have idle : ∀ id o round stage, ¬w.Works oid id o round stage := by
      rintro id o round stage ⟨c, hc, -⟩
      rw [calls] at hc
      cases hc
    refine ⟨fun id o round stage works => absurd works (idle id o round stage),
      fun id _ o _ round _ stage _ works => absurd works (idle id o round stage),
      fun id o round stage works => absurd works (idle id o round stage), fun round sent => ?_,
      fun round => ?_⟩
    · rw [trace] at sent
      cases sent
    · rw [trace]
      exact Nat.zero_le _
  · exact GatewayWorld.Serial.step hw plain ih (GatewayWorld.next_stepped step)

end MiHarness

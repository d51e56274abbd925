import MiHarness.Client.Fold
import MiHarness.Server.Events
import MiHarness.Tools.Execution

/-!
# The projection of a run and its snapshots

The server writes its rows and events as JSON and the client folds them.  `Hears` says that a
projection has heard the events of a run up to a number: it knows the status that these events
tell and the messages that they commit.  A snapshot starts such a projection, each transaction
carries it on by the events it records, and so the fold of the events that follow a snapshot agrees
with every later snapshot.
-/

namespace MiHarness

open Library

/-! ## JSON -/

/-- How the server writes identifiers and nested values. -/
structure Texts where
  /-- An identifier, of whatever kind. -/
  id : Nat → String
  id_inj : ∀ m n, id m = id n → m = n
  id_ne_empty : ∀ n, id n ≠ ""
  time : Time → String
  /-- `json.loads`. -/
  json : Json → Value
  error : ErrorEnvelope → Value
  binding : ApprovalBinding → Value

def EventType.text : EventType → String
  | .runQueued => "run.queued"
  | .runStarted => "run.started"
  | .runStateChanged => "run.state_changed"
  | .runCompleted => "run.completed"
  | .runFailed => "run.failed"
  | .runCancelled => "run.cancelled"
  | .interactionRequired => "interaction.required"
  | .interactionResolved => "interaction.resolved"
  | .toolPrepared => "tool.prepared"
  | .toolStarted => "tool.started"
  | .toolCompleted => "tool.completed"
  | .toolFailed => "tool.failed"
  | .childCreated => "child.created"
  | .childCompleted => "child.completed"
  | .messageCommitted => "message.committed"
  | .contextCompactionStarted => "context.compaction_started"
  | .contextCompactionFailed => "context.compaction_failed"
  | .contextCompacted => "context.compacted"
  | .modelSelectionRequested => "model.selection.requested"
  | .modelSelectionSuperseded => "model.selection.superseded"
  | .modelSelectionApplied => "model.selection.applied"
  | .modelSelectionRejected => "model.selection.rejected"
  | .modelSelectionNotApplied => "model.selection.not_applied"

def ResolutionOutcome.label : ResolutionOutcome → String
  | .answered => "answered"
  | .expired => "expired"
  | .cancelled => "cancelled"

def InteractionKind.label : InteractionKind → String
  | .approval => "approval"
  | .userInput => "user_input"
  | .mcpElicitation => "mcp_elicitation"

def ResultStatus.label : ResultStatus → String
  | .succeeded => "succeeded"
  | .failed => "failed"
  | .cancelled => "cancelled"
  | .unknown => "unknown"

/-- An object with the given properties. -/
def ObjectValue.ofList (fields : List (String × Value)) : ObjectValue := fun name =>
  fields.lookup name

/-- A property that may be `null`. -/
def Value.orNull {α : Type} (f : α → Value) : Option α → Value
  | some a => f a
  | none => .null

namespace Texts

variable (texts : Texts)

/-- The payload of a message, as it is stored and as its event carries it. -/
def message (payload : MessagePayload) : ObjectValue :=
  .ofList ([("message_id", .string (texts.id payload.messageId)), ("role", .string payload.role),
      ("content_parts", texts.json payload.contentParts)] ++
    payload.modelBinding.map fun field => (field.1, texts.json field.2))

/-- The data of an event. -/
def data : EventData → ObjectValue
  | .state revision status reason resultRef error => .ofList
      [("revision", .number revision), ("status", .string status.label),
        ("reason", .orNull .string reason),
        ("result_ref", .orNull (fun id => .string (texts.id id)) resultRef),
        ("error", .orNull texts.error error)]
  | .required interaction revision kind prompt responseSchema bindingRef expiresAt => .ofList
      [("interaction_id", .string (texts.id interaction)), ("revision", .number revision),
        ("kind", .string kind.label), ("prompt", .string prompt),
        ("response_schema", texts.json responseSchema),
        ("binding_ref", .orNull texts.binding bindingRef),
        ("expires_at", .orNull (fun at' => .string (texts.time at')) expiresAt)]
  | .resolved interaction revision resolution => .ofList
      [("interaction_id", .string (texts.id interaction)), ("revision", .number revision),
        ("resolution", .string resolution.label)]
  | .tool operation toolId toolRevision resultStatus resultSummary => .ofList
      [("operation_id", .string (texts.id operation)), ("tool_id", .string toolId.label),
        ("tool_revision", .string toolRevision),
        ("result_status", .orNull (fun status => .string status.label) resultStatus),
        ("result_summary", .orNull .string resultSummary)]
  | .child childRunId goalSummary status resultRef => .ofList
      [("child_run_id", .string (texts.id childRunId)), ("goal_summary", .string goalSummary),
        ("status", .string status.label),
        ("result_ref", .orNull (fun id => .string (texts.id id)) resultRef)]
  | .message payload => texts.message payload
  | .record payload => objectOf (some (texts.json payload))

/-- An event of `Store.events`. -/
def event (e : RunEvent) : ObjectValue :=
  .ofList [("schema_version", .number 1), ("run_id", .string (texts.id e.runId)),
    ("type", .string e.type.text), ("timestamp", .string (texts.time e.timestamp)),
    ("durability", .string "durable"), ("seq", .number e.seq), ("data", .object (texts.data e.data))]

end Texts

/-- `Store.snapshot`.  `rest` holds the other columns of the run and the lists of its other rows. -/
def ChatWorld.snapshot (texts : Texts) (rest : ObjectValue) (w : ChatWorld) (rid : RunId)
    (owner : OwnerId) : Except HarnessError ObjectValue := do
  let run ← w.base.store.ownedRun rid owner
  let messages := w.messages.select fun _ m => m.branchId = run.branchId
  .ok fun name =>
    match name with
    | "run_id" => some (.string (texts.id rid))
    | "status" => some (.string run.status.label)
    | "revision" => some (.number run.revision)
    | "last_seq" => some (.number ((w.base.store.events.next rid : ℚ) - 1))
    | "messages" => some (.array (messages.map fun m => .object (texts.message m.2.payload)))
    | other => rest other

variable {texts : Texts} {rid : RunId}

/-! ## What the client has heard -/

/-- The messages known after an event of a run. -/
def Entry.hold (rid : RunId) (held : MessageId → Option MessagePayload) (e : Entry) :
    MessageId → Option MessagePayload :=
  match e.commit with
  | some (run, payload) =>
      if run = rid then fun id => if id = payload.messageId then some payload else held id else held
  | none => held

/-- A projection has heard the events of a run below a number: they tell a status and commit
messages. -/
structure Hears (texts : Texts) (rid : RunId) (next : Nat) (known : Nat × RunStatus)
    (held : MessageId → Option MessagePayload) (p : RunProjection) : Prop where
  runId : p.runId = texts.id rid
  live : p.needsRecovery = false
  seq : p.lastAppliedDurableSeq = (next : ℚ) - 1
  status : p.serverStatus = known.2.label
  revision : p.snapshotRevision = known.1
  messages : ∀ id, p.messages (texts.id id) = (held id).map texts.message
  named : ∀ name v, p.messages name = some v → ∃ id, name = texts.id id

theorem EventType.startsWith_run (type : EventType) : startsWith type.text "run." = type.ofRun := by
  cases type <;> decide

theorem EventType.text_committed (type : EventType) :
    type.text = "message.committed" ↔ type = .messageCommitted := by
  cases type <;> decide

/-- The next durable event is applied. -/
theorem RunProjection.applyEvent_next {p : RunProjection} {value : ObjectValue}
    (run : isText (value "run_id") p.runId = true) (live : p.needsRecovery = false)
    (durable : value "durability" = some (.string "durable")) {n : Nat}
    (seq : value "seq" = some (.number n)) (next : (n : ℚ) = p.lastAppliedDurableSeq + 1) :
    p.applyEvent value = p.applyDurable n value := by
  have number : numberOf (value "seq") (-1) = n := by rw [seq, numberOf]
  have lasting : isText (value "durability") "durable" = true := by rw [durable]; rfl
  have whole : isInteger (n : ℚ) = true := decide_eq_true (Rat.den_natCast n)
  have later : ¬(n : ℚ) ≤ p.lastAppliedDurableSeq := by
    rw [next]
    linarith
  rw [applyEvent, number, if_neg, if_neg, if_neg, if_neg]
  · exact fun h => h next
  · rintro (h | h | h)
    · cases lasting.symm.trans h
    · cases whole.symm.trans h
    · exact later h
  · rw [durable]
    decide
  · rintro (h | h)
    · cases run.symm.trans h
    · cases live.symm.trans h

/-- The revision and the status after an event are those that the event tells. -/
theorem tell_reads (texts : Texts) (known : Nat × RunStatus) {e : Entry} (own : e.runId = rid) (told : e.Told) :
    (if (startsWith e.type.text "run." && (known.1 : ℚ) ≤ numberOf (texts.data e.data "revision")) =
      true then numberOf (texts.data e.data "revision") else (known.1 : ℚ)) =
        (Entry.tell rid known e).1 ∧
    (if (startsWith e.type.text "run." && (known.1 : ℚ) ≤ numberOf (texts.data e.data "revision")) =
      true then stringOf (texts.data e.data "status") known.2.label else known.2.label) =
        (Entry.tell rid known e).2.label := by
  rw [e.type.startsWith_run]
  by_cases state : e.type.ofRun = true
  · obtain ⟨revision, status, reason, resultRef, error, data⟩ := told.2 state
    rw [Entry.tell, data, state]
    have read : numberOf (texts.data (.state revision status reason resultRef error) "revision") =
        (revision : ℚ) := rfl
    have label : stringOf (texts.data (.state revision status reason resultRef error) "status")
        known.2.label = status.label := rfl
    rw [read, label]
    dsimp only
    by_cases newer : known.1 ≤ revision
    · simp [newer, own]
    · simp [newer]
  · rw [Entry.tell_silent known (.inr (by simpa using state))]
    simp [state]

theorem Entry.commit_eq_some {e : Entry} {run : RunId} {payload : MessagePayload} :
    e.commit = some (run, payload) ↔
      e.type = .messageCommitted ∧ e.data = .message payload ∧ e.runId = run := by
  unfold Entry.commit
  split
  · rename_i other data
    rw [data]
    simp [and_comm, and_left_comm]
  · rename_i other
    simp only [reduceCtorEq, false_iff, not_and]
    exact fun _ data => (other payload data).elim

/-- A message that is committed is new to the client and is kept as its event carries it. -/
theorem Hears.committed {next : Nat} {known : Nat × RunStatus}
    {held : MessageId → Option MessagePayload} {p : RunProjection} {e : Entry}
    (h : Hears texts rid next known held p) (told : e.Told)
    (fresh : ∀ run payload, e.commit = some (run, payload) → held payload.messageId = none)
    (name : String) :
    (RunProjection.upsertIf (e.type.text = "message.committed") p.messages
        (stringOf (texts.data e.data "message_id")) (texts.data e.data)) name =
      match e.commit with
      | some (_, payload) =>
          if name = texts.id payload.messageId then some (texts.message payload) else p.messages name
      | none => p.messages name := by
  by_cases committed : e.type = .messageCommitted
  · obtain ⟨payload, data⟩ := told.1 committed
    have commit : e.commit = some (e.runId, payload) := Entry.commit_eq_some.mpr ⟨committed, data, rfl⟩
    have key : stringOf (texts.data (.message payload) "message_id") = texts.id payload.messageId :=
      rfl
    have absent : p.messages (texts.id payload.messageId) = none := by
      rw [h.messages, fresh _ _ commit]
      rfl
    rw [RunProjection.upsertIf, if_pos (e.type.text_committed.mpr committed), commit, data, key,
      upsert, absent]
    rfl
  · have silent : e.commit = none := by
      cases hc : e.commit with
      | none => rfl
      | some c => exact absurd (Entry.commit_eq_some.mp hc).1 committed
    rw [RunProjection.upsertIf, if_neg fun text => committed (e.type.text_committed.mp text), silent]

theorem Hears.event {next : Nat} {known : Nat × RunStatus}
    {held : MessageId → Option MessagePayload} {p : RunProjection} {e : Entry}
    (h : Hears texts rid next known held p) (own : e.runId = rid) (told : e.Told)
    (fresh : ∀ run payload, e.commit = some (run, payload) → held payload.messageId = none) :
    Hears texts rid (next + 1) (Entry.tell rid known e) (e.hold rid held)
      (runReducer p (.event (texts.event ⟨rid, next, e.type, e.data, e.timestamp⟩))) := by
  have applied : runReducer p (.event (texts.event ⟨rid, next, e.type, e.data, e.timestamp⟩)) =
      p.applyDurable next (texts.event ⟨rid, next, e.type, e.data, e.timestamp⟩) := by
    refine RunProjection.applyEvent_next ?_ h.live rfl rfl (by rw [h.seq]; ring)
    rw [h.runId]
    exact decide_eq_true rfl
  have reads := tell_reads texts known own told
  rw [← h.revision, ← h.status] at reads
  have committed := h.committed told fresh
  rw [applied]
  refine ⟨h.runId, h.live, ?_, reads.2, reads.1, fun id => ?_, fun name v hv => ?_⟩
  · show (next : ℚ) = _
    push_cast
    ring
  · refine (committed (texts.id id)).trans ?_
    unfold Entry.hold
    cases hc : e.commit with
    | none => exact h.messages id
    | some c =>
        obtain ⟨run, payload⟩ := c
        obtain ⟨-, -, rfl⟩ := Entry.commit_eq_some.mp hc
        dsimp only
        rw [if_pos own]
        by_cases same : id = payload.messageId
        · rw [if_pos same, if_pos (congrArg texts.id same)]
          rfl
        · rw [if_neg same, if_neg fun text => same (texts.id_inj _ _ text)]
          exact h.messages id
  · replace hv := (committed name).symm.trans hv
    split at hv
    · split at hv
      · exact ⟨_, ‹_›⟩
      · exact h.named name v hv
    · exact h.named name v hv

/-- The event of another run is not heard. -/
theorem Entry.hold_other {held : MessageId → Option MessagePayload} {e : Entry}
    (other : e.runId ≠ rid) : e.hold rid held = held := by
  unfold Entry.hold
  cases hc : e.commit with
  | none => rfl
  | some c =>
      obtain ⟨run, payload⟩ := c
      obtain ⟨-, -, rfl⟩ := Entry.commit_eq_some.mp hc
      exact if_neg other

/-- What a transaction records of a run is heard, when it commits at most one message. -/
theorem Hears.foldl : ∀ (new : List Entry) {log : EventLog} {known : Nat × RunStatus}
    {held : MessageId → Option MessagePayload} {p : RunProjection},
    Hears texts rid (log.next rid) known held p → (∀ e ∈ new, e.Told) →
    (new.filterMap Entry.commit).length ≤ 1 →
    (∀ run payload, (run, payload) ∈ new.filterMap Entry.commit → held payload.messageId = none) →
    ∃ added, (new.foldl EventLog.record log).eventsOf rid = log.eventsOf rid ++ added ∧
      Hears texts rid ((new.foldl EventLog.record log).next rid) (new.foldl (Entry.tell rid) known)
        (new.foldl (Entry.hold rid) held)
        ((added.map fun e => RunAction.event (texts.event e)).foldl runReducer p) := by
  intro new
  induction new with
  | nil => exact fun h _ _ _ => ⟨[], (List.append_nil _).symm, h⟩
  | cons e new ih =>
      intro log known held p h told once fresh
      have told' : ∀ e' ∈ new, e'.Told := fun e' he' => told e' (List.mem_cons_of_mem _ he')
      have once' : (new.filterMap Entry.commit).length ≤ 1 := by
        refine le_trans (List.Sublist.length_le ?_) once
        exact (List.sublist_cons_self e new).filterMap _
      -- a message that is still to come has not been committed by this event
      have fresh' : ∀ run payload, (run, payload) ∈ new.filterMap Entry.commit →
          e.hold rid held payload.messageId = none := by
        intro run payload later
        cases hc : e.commit with
        | some c =>
            rw [List.filterMap_cons_some hc, List.length_cons] at once
            have none := List.length_eq_zero_iff.mp (Nat.le_zero.mp (Nat.le_of_succ_le_succ once))
            rw [none] at later
            cases later
        | none =>
            rw [Entry.hold, hc]
            exact fresh run payload (by rw [List.filterMap_cons_none hc]; exact later)
      by_cases own : e.runId = rid
      · have heard : Hears texts rid ((log.record e).next rid) (Entry.tell rid known e)
            (e.hold rid held) (runReducer p
              (.event (texts.event ⟨rid, log.next rid, e.type, e.data, e.timestamp⟩))) := by
          rw [EventLog.next_record, if_pos own]
          refine h.event own (told e (List.mem_cons_self ..)) fun run payload hc => ?_
          exact fresh run payload (List.mem_filterMap.mpr ⟨e, List.mem_cons_self .., hc⟩)
        obtain ⟨added, log', h'⟩ := ih heard told' once' fresh'
        refine ⟨⟨rid, log.next rid, e.type, e.data, e.timestamp⟩ :: added, ?_, h'⟩
        rw [List.foldl_cons, log', EventLog.eventsOf_record, if_pos own, List.append_assoc]
        rfl
      · have heard : Hears texts rid ((log.record e).next rid) (Entry.tell rid known e)
            (e.hold rid held) p := by
          rw [EventLog.next_record, if_neg own, Entry.tell_silent known (.inl own),
            Entry.hold_other own]
          exact h
        obtain ⟨added, log', h'⟩ := ih heard told' once' fresh'
        refine ⟨added, ?_, h'⟩
        rw [List.foldl_cons, log', EventLog.eventsOf_record, if_neg own, List.append_nil]

/-! ## Agreement -/

/-- The messages are filed under their identifiers, on the branch of their run. -/
def ChatWorld.Filed (w : ChatWorld) : Prop :=
  ∀ id m, w.messages.get? id = some m → m.payload.messageId = id ∧
    ∃ run, w.base.store.runs.get? m.runId = some run ∧ run.branchId = m.branchId

/-- The messages a client knows are messages of the branch, those of the run among them. -/
structure Holds (w : ChatWorld) (rid : RunId) (run : Run)
    (held : MessageId → Option MessagePayload) : Prop where
  all : ∀ id m, w.messages.get? id = some m → m.runId = rid → held id = some m.payload
  only : ∀ id payload, held id = some payload →
    ∃ m, w.messages.get? id = some m ∧ m.payload = payload ∧ m.branchId = run.branchId

/-- A projection agrees with the rows of a run.  The revision it knows is one that the run has had:
some changes of a row raise its revision and record no event. -/
def Agrees (texts : Texts) (w : ChatWorld) (rid : RunId) (p : RunProjection) : Prop :=
  ∃ run known held, w.base.store.runs.get? rid = some run ∧ known ≤ run.revision ∧
    Hears texts rid (w.base.store.events.next rid) (known, run.status) held p ∧
    Holds w rid run held

variable {w w' : ChatWorld} {new : List Entry}

theorem ChatWorld.Filed.speaks (filed : w.Filed) (speaks : w.Speaks w' new) : w'.Filed := by
  have kept : ∀ id m, w.messages.get? id = some m → m.payload.messageId = id ∧
      ∃ run, w'.base.store.runs.get? m.runId = some run ∧ run.branchId = m.branchId := by
    intro id m hm
    obtain ⟨key, run, hrun, branch⟩ := filed id m hm
    obtain ⟨run', hrun', same⟩ := speaks.store.branches hrun
    exact ⟨key, run', hrun', same.trans branch⟩
  intro id m hm
  rcases speaks.messages with ⟨same, -⟩ | ⟨row, hinsert, -, run, hrun, branch⟩
  · exact kept id m (same ▸ hm)
  · obtain ⟨-, read⟩ := Table.insert?_eq_some hinsert
    rw [read] at hm
    split at hm
    · rename_i key
      cases hm
      exact ⟨key.symm, run, hrun, branch⟩
    · exact kept id m hm

/-- Messages stay as they are. -/
theorem ChatWorld.Speaks.message_kept (speaks : w.Speaks w' new) {id : MessageId} {m : Message}
    (hm : w.messages.get? id = some m) : w'.messages.get? id = some m := by
  rcases speaks.messages with ⟨same, -⟩ | ⟨row, hinsert, -⟩
  · exact same ▸ hm
  · obtain ⟨fresh, read⟩ := Table.insert?_eq_some hinsert
    rw [read, if_neg, hm]
    rintro rfl
    cases fresh.symm.trans hm

theorem foldl_hold (rid : RunId) (new : List Entry) (held : MessageId → Option MessagePayload) :
    new.foldl (Entry.hold rid) held = (new.filterMap Entry.commit).foldl (fun held c =>
      if c.1 = rid then fun id => if id = c.2.messageId then some c.2 else held id else held)
        held := by
  induction new generalizing held with
  | nil => rfl
  | cons e new ih =>
      rw [List.foldl_cons, ih, Entry.hold]
      cases hc : e.commit with
      | none => rw [List.filterMap_cons_none hc]
      | some c => rw [List.filterMap_cons_some hc, List.foldl_cons]

theorem Holds.speaks {run run' : Run} {held : MessageId → Option MessagePayload}
    (h : Holds w rid run held) (speaks : w.Speaks w' new)
    (hrun' : w'.base.store.runs.get? rid = some run') (branch : run'.branchId = run.branchId) :
    Holds w' rid run' (new.foldl (Entry.hold rid) held) := by
  have only : ∀ id payload, held id = some payload →
      ∃ m, w'.messages.get? id = some m ∧ m.payload = payload ∧ m.branchId = run'.branchId := by
    intro id payload hheld
    obtain ⟨m, hm, same, on⟩ := h.only id payload hheld
    exact ⟨m, speaks.message_kept hm, same, on.trans branch.symm⟩
  rw [foldl_hold]
  rcases speaks.messages with ⟨same, silent⟩ | ⟨row, hinsert, commits, owner, howner, on⟩
  · rw [silent]
    exact ⟨fun id m hm => h.all id m (same ▸ hm), only⟩
  · obtain ⟨fresh, read⟩ := Table.insert?_eq_some hinsert
    rw [commits, List.foldl_cons, List.foldl_nil]
    dsimp only
    split
    · rename_i own
      refine ⟨fun id m hm ofRun => ?_, fun id payload hheld => ?_⟩
      · rw [read] at hm
        split at hm
        · rename_i same
          cases hm
          rw [if_pos same]
        · rename_i other
          rw [if_neg other]
          exact h.all id m hm ofRun
      · split at hheld
        · rename_i same
          cases hheld
          rw [own, hrun'] at howner
          cases howner
          exact ⟨row, by rw [read, if_pos same], rfl, on.symm⟩
        · exact only id payload hheld
    · rename_i other
      refine ⟨fun id m hm ofRun => ?_, only⟩
      rw [read] at hm
      split at hm
      · cases hm
        exact absurd ofRun other
      · exact h.all id m hm ofRun

/-- A transaction and its events keep the agreement. -/
theorem Agrees.speaks {p : RunProjection} (h : Agrees texts w rid p) (speaks : w.Speaks w' new) :
    ∃ added, w'.base.store.events.eventsOf rid = w.base.store.events.eventsOf rid ++ added ∧
      Agrees texts w' rid
        ((added.map fun e => RunAction.event (texts.event e)).foldl runReducer p) := by
  obtain ⟨run, known, held, hrun, bound, hears, holds⟩ := h
  obtain ⟨run', hrun', branch⟩ := speaks.store.branches hrun
  obtain ⟨run'', hrun'', bound', status⟩ := speaks.store.tells rid run known hrun bound
  cases hrun'.symm.trans hrun''
  have once : (new.filterMap Entry.commit).length ≤ 1 := by
    rcases speaks.messages with ⟨-, silent⟩ | ⟨row, -, commits, -⟩
    · rw [silent]
      exact Nat.zero_le _
    · rw [commits]
      exact Nat.le_refl _
  have fresh : ∀ run payload, (run, payload) ∈ new.filterMap Entry.commit →
      held payload.messageId = none := by
    intro owner payload hmem
    rcases speaks.messages with ⟨-, silent⟩ | ⟨row, hinsert, commits, -⟩
    · rw [silent] at hmem
      cases hmem
    · rw [commits, List.mem_singleton] at hmem
      cases hmem
      cases hheld : held row.payload.messageId with
      | none => rfl
      | some payload =>
          obtain ⟨m, hm, -⟩ := holds.only _ _ hheld
          cases (Table.insert?_eq_some hinsert).1.symm.trans hm
  obtain ⟨added, log, hears'⟩ := hears.foldl new speaks.store.told once fresh
  rw [← speaks.store.log] at log hears'
  refine ⟨added, log, run', _, _, hrun', bound', ?_, holds.speaks speaks hrun' branch⟩
  rw [← status]
  exact hears'

/-! ## Snapshots -/

/-- Reading a list of objects by a key that they have and that tells them apart. -/
theorem indexed_objects {α : Type} {l : List α} {f : α → ObjectValue} {key : String}
    {name : α → String} (named : ∀ a ∈ l, indexKey key (f a) = name a) (ne : ∀ a ∈ l, name a ≠ "")
    (inj : ∀ a ∈ l, ∀ b ∈ l, name a = name b → a = b) {n : String} {v : ObjectValue} :
    indexed (some (.array (l.map fun a => .object (f a)))) key n = some v ↔
      ∃ a ∈ l, name a = n ∧ f a = v := by
  have objects : (arrayOf (some (.array (l.map fun a => Value.object (f a))))).map
      (fun item => objectOf (some item)) = l.map f := by
    rw [arrayOf, List.map_map]
    rfl
  have keyed : (l.map f).filter (fun v => indexKey key v ≠ "") = l.map f := by
    rw [List.filter_eq_self]
    intro v hv
    obtain ⟨a, ha, rfl⟩ := List.mem_map.mp hv
    exact decide_eq_true (named a ha ▸ ne a ha)
  have found : ∀ v, (l.map f).reverse.find? (fun v => indexKey key v = n) = some v →
      ∃ a ∈ l, name a = n ∧ f a = v := by
    intro v hv
    obtain ⟨a, ha, rfl⟩ := List.mem_map.mp (List.mem_reverse.mp (List.mem_of_find?_eq_some hv))
    have key : decide (indexKey key (f a) = n) = true := List.find?_some (p := fun v =>
      decide (indexKey key v = n)) hv
    exact ⟨a, ha, (named a ha).symm.trans (of_decide_eq_true key), rfl⟩
  rw [indexed, objects, keyed]
  refine ⟨found v, ?_⟩
  rintro ⟨a, ha, rfl, rfl⟩
  have some : ((l.map f).reverse.find? fun v => indexKey key v = name a).isSome := by
    rw [List.find?_isSome]
    exact ⟨f a, List.mem_reverse.mpr (List.mem_map_of_mem ha), decide_eq_true (named a ha)⟩
  obtain ⟨v, hv⟩ := Option.isSome_iff_exists.mp some
  obtain ⟨b, hb, same, rfl⟩ := found v hv
  rw [hv, inj b hb a ha same]

theorem snapshot_eq_ok {rest value : ObjectValue} {owner : OwnerId}
    (h : w.snapshot texts rest rid owner = .ok value) :
    ∃ run, w.base.store.runs.get? rid = some run ∧ value "run_id" = some (.string (texts.id rid)) ∧
      value "status" = some (.string run.status.label) ∧
      value "revision" = some (.number run.revision) ∧
      value "last_seq" = some (.number ((w.base.store.events.next rid : ℚ) - 1)) ∧
      value "messages" = some (.array ((w.messages.select fun _ m => m.branchId = run.branchId).map
        fun m => .object (texts.message m.2.payload))) := by
  obtain ⟨run, hrun, h⟩ := bind_eq_ok.mp h
  cases h
  exact ⟨run, (Store.ownedRun_eq_ok.mp hrun).1, rfl, rfl, rfl, rfl, rfl⟩

/-- The messages a snapshot gives are those of the branch. -/
theorem snapshot_messages {run : Run} (filed : w.Filed) {name : String} {v : ObjectValue} :
    indexed (some (.array ((w.messages.select fun _ m => m.branchId = run.branchId).map
      fun m => .object (texts.message m.2.payload)))) "message_id" name = some v ↔
      ∃ id m, w.messages.get? id = some m ∧ m.branchId = run.branchId ∧ name = texts.id id ∧
        texts.message m.payload = v := by
  have listed : ∀ e : MessageId × Message, e ∈ w.messages.select (fun _ m =>
      m.branchId = run.branchId) ↔ w.messages.get? e.1 = some e.2 ∧ e.2.branchId = run.branchId := by
    rintro ⟨id, m⟩
    exact Table.mem_select.trans (and_congr_right fun _ => decide_eq_true_iff)
  have key : ∀ e ∈ w.messages.select (fun _ m => m.branchId = run.branchId),
      indexKey "message_id" (texts.message e.2.payload) = texts.id e.1 := by
    intro e he
    have id := (filed e.1 e.2 ((listed e).mp he).1).1
    have read : stringOf (texts.message e.2.payload "message_id") = texts.id e.1 := by
      rw [← id]
      rfl
    rw [indexKey, read, if_neg (texts.id_ne_empty _)]
  rw [indexed_objects key (fun _ _ => texts.id_ne_empty _)]
  · constructor
    · rintro ⟨e, he, rfl, rfl⟩
      exact ⟨e.1, e.2, ((listed e).mp he).1, ((listed e).mp he).2, rfl, rfl⟩
    · rintro ⟨id, m, hm, branch, rfl, rfl⟩
      exact ⟨(id, m), (listed _).mpr ⟨hm, branch⟩, rfl, rfl⟩
  · rintro ⟨id, m⟩ he ⟨id', m'⟩ he' same
    obtain rfl := texts.id_inj _ _ same
    cases ((listed _).mp he).1.symm.trans ((listed _).mp he').1
    rfl

/-- The projection that a snapshot starts. -/
theorem snapshot_start {rest value : ObjectValue} {owner : OwnerId}
    (gapless : w.base.store.events.Gapless) (h : w.snapshot texts rest rid owner = .ok value) :
    runReducer (emptyRun (texts.id rid)) (.snapshot value) = .ofSnapshot value := by
  obtain ⟨run, -, -, -, -, seq, -⟩ := snapshot_eq_ok h
  have positive : ¬numberOf (value "last_seq") < 0 := by
    rw [seq, numberOf, not_lt, sub_nonneg, Nat.one_le_cast]
    exact (gapless rid).1
  rw [runReducer, if_neg]
  simp [RunProjection.outdates, emptyRun, positive]

theorem ofSnapshot_messages {rest value : ObjectValue} {owner : OwnerId} {run : Run}
    (filed : w.Filed) (h : w.snapshot texts rest rid owner = .ok value)
    (hrun : w.base.store.runs.get? rid = some run) (name : String) (v : ObjectValue) :
    (RunProjection.ofSnapshot value).messages name = some v ↔
      ∃ id m, w.messages.get? id = some m ∧ m.branchId = run.branchId ∧ name = texts.id id ∧
        texts.message m.payload = v := by
  obtain ⟨run', hrun', -, -, -, -, messages⟩ := snapshot_eq_ok h
  cases hrun.symm.trans hrun'
  rw [RunProjection.ofSnapshot, messages]
  exact snapshot_messages filed

theorem Agrees.snapshot {rest value : ObjectValue} {owner : OwnerId} (filed : w.Filed)
    (h : w.snapshot texts rest rid owner = .ok value) :
    Agrees texts w rid (.ofSnapshot value) := by
  obtain ⟨run, hrun, runId, status, revision, seq, -⟩ := snapshot_eq_ok h
  have listed := ofSnapshot_messages filed h hrun
  refine ⟨run, run.revision, fun id => (w.messages.get? id).bind fun m =>
    if m.branchId = run.branchId then some m.payload else none, hrun, Nat.le_refl _, ?_, ?_⟩
  · refine ⟨by rw [RunProjection.ofSnapshot, runId]; rfl, rfl,
      by rw [RunProjection.ofSnapshot, seq]; rfl, by rw [RunProjection.ofSnapshot, status]; rfl,
      by rw [RunProjection.ofSnapshot, revision]; rfl, fun id => ?_, fun name v hv => ?_⟩
    · ext v
      rw [listed]
      constructor
      · rintro ⟨id', m, hm, branch, same, rfl⟩
        obtain rfl := texts.id_inj _ _ same
        rw [hm, Option.bind_some, if_pos branch, Option.map_some]
      · intro hv
        obtain ⟨payload, hpayload, rfl⟩ := Option.map_eq_some_iff.mp hv
        obtain ⟨m, hm, hpayload⟩ := Option.bind_eq_some_iff.mp hpayload
        split at hpayload
        · rename_i branch
          cases hpayload
          exact ⟨id, m, hm, branch, rfl, rfl⟩
        · cases hpayload
    · obtain ⟨id, -, -, -, rfl, -⟩ := (listed name v).mp hv
      exact ⟨id, rfl⟩
  · refine ⟨fun id m hm own => ?_, fun id payload hpayload => ?_⟩
    · obtain ⟨-, run', hrun', branch⟩ := filed id m hm
      rw [own, hrun] at hrun'
      cases hrun'
      rw [hm, Option.bind_some, if_pos branch.symm]
    · obtain ⟨m, hm, hpayload⟩ := Option.bind_eq_some_iff.mp hpayload
      split at hpayload
      · cases hpayload
        exact ⟨m, hm, rfl, ‹_›⟩
      · cases hpayload

/-! ## Runs -/

variable {host : Host}

theorem reachable_filed (h : (chatSystem host).Reachable w) :
    w.base.store.events.Gapless ∧ w.Filed := by
  refine h.invariant (I := fun w => w.base.store.events.Gapless ∧ w.Filed) (fun w start => ?_)
    fun w a w' _ ih step => ?_
  · obtain ⟨initial, empty⟩ := start
    rw [initial]
    refine ⟨fun rid => ⟨Nat.le_refl _, rfl⟩, fun id m hm => ?_⟩
    rw [empty] at hm
    cases hm
  · obtain ⟨new, speaks⟩ := ChatWorld.Step.speaks step
    refine ⟨?_, ih.2.speaks speaks⟩
    rw [speaks.store.log]
    exact ih.1.foldl new

/-- At every point of every run, folding the durable events that follow a snapshot of a run gives
the status and the messages of every later snapshot: the same status, the messages of the run under
their identifiers with the same payloads, and no message that the later snapshot has not. -/
theorem projection_agrees {owner owner' : OwnerId} {rest rest' value value' : ObjectValue}
    (h : (chatSystem host).Reachable w) (path : (chatSystem host).Path w w')
    (before : w.snapshot texts rest rid owner = .ok value)
    (after : w'.snapshot texts rest' rid owner' = .ok value') :
    let later := w'.base.store.events.after rid (w.base.store.events.next rid - 1)
    let p := (later.map fun e => RunAction.event (texts.event e)).foldl runReducer
      (runReducer (emptyRun (texts.id rid)) (.snapshot value))
    let p' := runReducer (emptyRun (texts.id rid)) (.snapshot value')
    p.serverStatus = p'.serverStatus ∧
    (∀ id m, w'.messages.get? id = some m → m.runId = rid →
      p.messages (texts.id id) = some (texts.message m.payload) ∧
      p'.messages (texts.id id) = some (texts.message m.payload)) ∧
    ∀ name v, p.messages name = some v → p'.messages name = some v := by
  intro later p p'
  have start := reachable_filed h
  have end' := reachable_filed (h.path path)
  have followed : ∃ added, w'.base.store.events.eventsOf rid =
      w.base.store.events.eventsOf rid ++ added ∧ Agrees texts w' rid
        ((added.map fun e => RunAction.event (texts.event e)).foldl runReducer
          (.ofSnapshot value)) := by
    refine path.stable (P := fun t => ∃ added, t.base.store.events.eventsOf rid =
      w.base.store.events.eventsOf rid ++ added ∧ Agrees texts t rid
        ((added.map fun e => RunAction.event (texts.event e)).foldl runReducer
          (.ofSnapshot value))) (fun t a u _ ih step => ?_) h
      ⟨[], (List.append_nil _).symm, .snapshot start.2 before⟩
    obtain ⟨added, log, agrees⟩ := ih
    obtain ⟨new, speaks⟩ := ChatWorld.Step.speaks step
    obtain ⟨more, log', agrees'⟩ := agrees.speaks speaks
    refine ⟨added ++ more, ?_, ?_⟩
    · rw [log', log, List.append_assoc]
    · rw [List.map_append, List.foldl_append]
      exact agrees'
  obtain ⟨added, log, run, known, held, hrun, -, hears, holds⟩ := followed
  have heard : later = added := by
    show EventLog.after _ _ _ = _
    rw [end'.1.after, log, ← start.1.length rid, List.drop_left]
  have same : p = (added.map fun e => RunAction.event (texts.event e)).foldl runReducer
      (.ofSnapshot value) := by
    show (later.map _).foldl runReducer _ = _
    rw [heard, snapshot_start start.1 before]
  obtain ⟨run', known', held', hrun', -, hears', holds'⟩ := Agrees.snapshot end'.2 after
  have same' : p' = .ofSnapshot value' := snapshot_start end'.1 after
  cases hrun.symm.trans hrun'
  refine ⟨?_, fun id m hm own => ⟨?_, ?_⟩, fun name v hv => ?_⟩
  · rw [same, same', hears.status, hears'.status]
  · rw [same, hears.messages, holds.all id m hm own]
    rfl
  · rw [same', hears'.messages, holds'.all id m hm own]
    rfl
  · rw [same] at hv
    obtain ⟨id, rfl⟩ := hears.named name v hv
    rw [hears.messages] at hv
    obtain ⟨payload, hpayload, rfl⟩ := Option.map_eq_some_iff.mp hv
    obtain ⟨m, hm, rfl, branch⟩ := holds.only id payload hpayload
    rw [same']
    exact (ofSnapshot_messages end'.2 after hrun _ _).mpr ⟨id, m, hm, branch, rfl, rfl⟩

namespace Sample

/-- Identifiers in unary. -/
def unary : Texts where
  id n := String.ofList (List.replicate (n + 1) 'x')
  id_inj m n same := by
    have lengths := congrArg String.length same
    simpa using lengths
  id_ne_empty n := by simp
  time at' := String.ofList (List.replicate at' 'x')
  json text := .string text
  error e := .string e.message
  binding _ := .null

/-- A user has added a branch. -/
def branched : World :=
  (World.next Sample.host start (.addBranch 1 { sessionId := 1, graphThreadKey := 5 })).get
    (by decide +kernel)

/-- Run `10` has been submitted with message `7`. -/
def posted : Table MessageId Message × Store :=
  (submitMessage branched.store .empty 1 1 ⟨1, 1, 1, 1, "goal", ∅, 1000000⟩ 10 7 "goal"
    branched.now).toOption.get (by decide +kernel)

/-- The run has been claimed. -/
def claimed : World :=
  (World.next Sample.host { branched with store := posted.2 } (.claim ⟨1, 1⟩ 20)).get
    (by decide +kernel)

/-- The run has answered with message `8`. -/
def replied : Table MessageId Message × Store :=
  (addMessage claimed.store posted.1 10 ⟨8, "assistant", "answer", []⟩ claimed.now).toOption.get
    (by decide +kernel)

end Sample

theorem toOption_get {ε α : Type} {x : Except ε α} (h : x.toOption.isSome) :
    x = .ok (x.toOption.get h) := by
  cases x with
  | ok a => rfl
  | error e => cases h

theorem snapshot_ok (texts : Texts) (rest : ObjectValue) {run : Run} (hrun : w.base.store.runs.get? rid = some run) :
    ∃ value, w.snapshot texts rest rid run.ownerId = .ok value :=
  ⟨_, bind_eq_ok.mpr ⟨run, Store.ownedRun_eq_ok.mpr ⟨hrun, rfl⟩, rfl⟩⟩

/-- A run that has been claimed and has answered after the snapshot. -/
theorem projection_agrees_reply : ∃ (w w' : ChatWorld) (value : ObjectValue),
    (chatSystem Sample.host).Reachable w ∧ (chatSystem Sample.host).Path w w' ∧
    w.snapshot Sample.unary (fun _ => none) 10 1 = .ok value ∧
    (w'.base.store.events.after 10 (w.base.store.events.next 10 - 1)).length = 2 ∧
    ((((w'.base.store.events.after 10 (w.base.store.events.next 10 - 1)).map fun e =>
      RunAction.event (Sample.unary.event e)).foldl runReducer (runReducer
        (emptyRun (Sample.unary.id 10)) (.snapshot value))).messages (Sample.unary.id 8)).isSome := by
  have branch : World.next Sample.host Sample.start
      (.addBranch 1 { sessionId := 1, graphThreadKey := 5 }) = some Sample.branched :=
    (Option.some_get _).symm
  have post : submitMessage Sample.branched.store .empty 1 1 ⟨1, 1, 1, 1, "goal", ∅, 1000000⟩ 10 7
      "goal" Sample.branched.now = .ok Sample.posted := toOption_get _
  have claim : World.next Sample.host { Sample.branched with store := Sample.posted.2 }
      (.claim ⟨1, 1⟩ 20) = some Sample.claimed := (Option.some_get _).symm
  have reply : addMessage Sample.claimed.store Sample.posted.1 10 ⟨8, "assistant", "answer", []⟩
      Sample.claimed.now = .ok Sample.replied := toOption_get _
  have start : (chatSystem Sample.host).Reachable ⟨Sample.start, .empty⟩ := .init ⟨rfl, rfl⟩
  obtain ⟨_, branched⟩ := ChatWorld.Step.own (w := ⟨Sample.start, .empty⟩) rfl branch
  have posted : (chatSystem Sample.host).Reachable
      ⟨{ Sample.branched with store := Sample.posted.2 }, Sample.posted.1⟩ :=
    (start.step branched).step (a := .submit 1 1 ⟨1, 1, 1, 1, "goal", ∅, 1000000⟩ 10 7 "goal")
      ⟨_, _, post, rfl⟩
  obtain ⟨_, claimed⟩ := ChatWorld.Step.own
    (w := ⟨{ Sample.branched with store := Sample.posted.2 }, Sample.posted.1⟩) rfl claim
  have path : (chatSystem Sample.host).Path
      ⟨{ Sample.branched with store := Sample.posted.2 }, Sample.posted.1⟩
      ⟨{ Sample.claimed with store := Sample.replied.2 }, Sample.replied.1⟩ :=
    (System.Path.refl.tail claimed).tail (a := .addMessage 10 ⟨8, "assistant", "answer", []⟩)
      ⟨_, _, reply, rfl⟩
  obtain ⟨run, hrun, owned⟩ : ∃ run, Sample.posted.2.runs.get? 10 = some run ∧ run.ownerId = 1 :=
    Option.map_eq_some_iff.mp (by decide +kernel)
  obtain ⟨run', hrun', owned'⟩ : ∃ run, Sample.replied.2.runs.get? 10 = some run ∧ run.ownerId = 1 :=
    Option.map_eq_some_iff.mp (by decide +kernel)
  obtain ⟨message, hmessage, own⟩ : ∃ m, Sample.replied.1.get? 8 = some m ∧ m.runId = 10 :=
    Option.map_eq_some_iff.mp (by decide +kernel)
  obtain ⟨value, before⟩ := snapshot_ok Sample.unary (fun _ => none)
    (w := ⟨{ Sample.branched with store := Sample.posted.2 }, Sample.posted.1⟩) hrun
  obtain ⟨value', after⟩ := snapshot_ok Sample.unary (fun _ => none)
    (w := ⟨{ Sample.claimed with store := Sample.replied.2 }, Sample.replied.1⟩) hrun'
  rw [owned] at before
  obtain ⟨-, messages, -⟩ := projection_agrees posted path before after
  refine ⟨_, _, value, posted, path, before, by decide +kernel, ?_⟩
  rw [(messages 8 message hmessage own).1]
  rfl

end MiHarness

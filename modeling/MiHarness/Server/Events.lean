import MiHarness.Scheduler.Books

/-!
# The events and messages of a run

The scheduler's transactions, together with those that add messages and the events that the context
service and the model selection record.  `submit` adds the message of the user in its transaction,
and the hook of terminal runs records events within the transaction that ends one.  `Speaks` is what
every transaction says of the runs it finds: the events it records, each at the next number of its
run; that they tell the status of each run; and that the messages it adds are those of its events.
-/

namespace MiHarness

open Library

/-! ## The log -/

namespace EventLog

variable {log : EventLog} {rid : RunId}

/-- The events of a run, `ORDER BY seq`. -/
def eventsOf (log : EventLog) (rid : RunId) : List RunEvent :=
  log.entries.filter fun e => e.runId = rid

/-- `Store.events`, without its limit. -/
def after (log : EventLog) (rid : RunId) (seq : Nat) : List RunEvent :=
  (log.eventsOf rid).filter fun e => seq < e.seq

/-- The sequence numbers of every run count from one. -/
def Gapless (log : EventLog) : Prop :=
  ∀ rid, 1 ≤ log.next rid ∧
    (log.eventsOf rid).map RunEvent.seq = (List.range (log.next rid - 1)).map (· + 1)

theorem eventsOf_record (log : EventLog) (e : Entry) (rid : RunId) :
    (log.record e).eventsOf rid = log.eventsOf rid ++ (if e.runId = rid then
      [{ runId := rid, seq := log.next rid, type := e.type, data := e.data
         timestamp := e.timestamp }] else []) := by
  rw [eventsOf, record, List.filter_append, ← eventsOf]
  split
  · rename_i same
    subst same
    simp
  · rename_i other
    simp [other]

theorem next_record (log : EventLog) (e : Entry) (rid : RunId) :
    (log.record e).next rid = log.next rid + if e.runId = rid then 1 else 0 := by
  rw [record]
  dsimp only
  by_cases same : rid = e.runId
  · rw [if_pos same, if_pos same.symm]
  · rw [if_neg same, if_neg fun h => same h.symm, Nat.add_zero]

theorem Gapless.record (gapless : log.Gapless) (e : Entry) : (log.record e).Gapless := by
  intro rid
  obtain ⟨first, numbers⟩ := gapless rid
  rw [eventsOf_record, next_record, List.map_append, numbers]
  split
  · refine ⟨Nat.le_succ_of_le first, ?_⟩
    have next : log.next rid + 1 - 1 = log.next rid - 1 + 1 := by omega
    rw [next, List.range_succ, List.map_append]
    simp
    omega
  · exact ⟨first, by simp⟩

theorem Gapless.foldl (new : List Entry) (gapless : log.Gapless) :
    (new.foldl EventLog.record log).Gapless := by
  induction new generalizing log with
  | nil => exact gapless
  | cons e new ih => exact ih (gapless.record e)

/-- Recording adds to what is there. -/
theorem eventsOf_foldl (new : List Entry) (log : EventLog) (rid : RunId) :
    ∃ added, (new.foldl EventLog.record log).eventsOf rid = log.eventsOf rid ++ added := by
  induction new generalizing log with
  | nil => exact ⟨[], (List.append_nil _).symm⟩
  | cons e new ih =>
      obtain ⟨added, same⟩ := ih (log.record e)
      rw [eventsOf_record, List.append_assoc] at same
      exact ⟨_, same⟩

theorem Gapless.length (gapless : log.Gapless) (rid : RunId) :
    (log.eventsOf rid).length = log.next rid - 1 := by
  have numbers := congrArg List.length (gapless rid).2
  simpa using numbers

/-- The event at a place has the number of the place. -/
theorem Gapless.seq (gapless : log.Gapless) {i : Nat} {e : RunEvent}
    (h : (log.eventsOf rid)[i]? = some e) : e.seq = i + 1 := by
  have bound : i < log.next rid - 1 := by
    rw [← gapless.length rid]
    exact (List.getElem?_eq_some_iff.mp h).1
  have numbers := congrArg (fun l : List Nat => l[i]?) (gapless rid).2
  simpa [List.getElem?_map, h, List.getElem?_range bound] using numbers

/-- The events after a number are those after its place. -/
theorem Gapless.after (gapless : log.Gapless) (rid : RunId) (seq : Nat) :
    log.after rid seq = (log.eventsOf rid).drop seq := by
  have split : (log.eventsOf rid).take seq ++ (log.eventsOf rid).drop seq = log.eventsOf rid :=
    List.take_append_drop seq _
  rw [EventLog.after]
  nth_rewrite 1 [← split]
  have early : ((log.eventsOf rid).take seq).filter (fun e => seq < e.seq) = [] := by
    rw [List.filter_eq_nil_iff]
    intro e he
    obtain ⟨i, hi⟩ := List.mem_iff_getElem?.mp he
    rw [List.getElem?_take] at hi
    split at hi
    · have number := gapless.seq hi
      simp
      omega
    · cases hi
  have late : ((log.eventsOf rid).drop seq).filter (fun e => seq < e.seq) =
      (log.eventsOf rid).drop seq := by
    rw [List.filter_eq_self]
    intro e he
    obtain ⟨i, hi⟩ := List.mem_iff_getElem?.mp he
    rw [List.getElem?_drop] at hi
    have number := gapless.seq hi
    simp
    omega
  rw [List.filter_append, early, late, List.nil_append]

/-- What has been recorded can be read off. -/
theorem foldl_record_inj {new new' : List Entry}
    (h : new.foldl EventLog.record log = new'.foldl EventLog.record log) : new = new' := by
  have read : ∀ (new : List Entry) (log : EventLog),
      (new.foldl EventLog.record log).entries.map (fun e => Entry.mk e.runId e.type e.data e.timestamp) =
        log.entries.map (fun e => Entry.mk e.runId e.type e.data e.timestamp) ++ new := by
    intro new
    induction new with
    | nil => simp
    | cons e new ih =>
        intro log
        rw [List.foldl_cons, ih, EventLog.record, List.map_append, List.append_assoc]
        rfl
  have both := (read new log).symm.trans (h ▸ read new' log)
  exact List.append_cancel_left both

end EventLog

/-! ## Transactions -/

/-- A row of `messages`. -/
structure Message where
  runId : RunId
  branchId : BranchId
  role : String
  payload : MessagePayload

structure ChatWorld where
  base : World
  messages : Table MessageId Message := .empty

/-- `Store.add_message`.  Both callers give the message the identifier that its payload has. -/
def addMessage (s : Store) (messages : Table MessageId Message) (rid : RunId)
    (payload : MessagePayload) (now : Time) :
    Except HarnessError (Table MessageId Message × Store) := do
  let row ← s.run rid
  match messages.get? payload.messageId with
  | some existing =>
      require (existing.payload = payload)
        { code := .messageConflict, message := "完整消息 ID 已绑定其他内容" }
      .ok (messages, s)
  | none =>
      let messages ← orThrow (messages.insert? payload.messageId
        { runId := rid, branchId := row.branchId, role := payload.role, payload }) Store.integrity
      .ok (messages, s.event rid .messageCommitted (.message payload) now)

/-- What `submit` does before it adds the message. -/
def openRun (s : Store) (owner : OwnerId) (session : SessionId) (request : Submission)
    (fresh : RunId) (now : Time) : Except HarnessError (Run × Store) := do
  require (s.maintenance = false)
    { code := .maintenance, message := "服务处于维护状态，暂停新任务", status := 503 }
  let branch ← s.branch request.branchId
  require (branch.sessionId = session)
    { code := .branchScope, message := "分支不属于此会话", status := 404 }
  let s ← s.advanceBranch request.branchId request.expectedBranchRevision
  let row : Run :=
    { ownerId := owner, workspaceId := request.workspaceId, sessionId := session
      branchId := request.branchId, rootRunId := fresh, parentRunId := none, status := .queued
      revision := 1, inputRevision := request.expectedBranchRevision + 1
      snapshotId := request.snapshotId, input := request.text
      deadlineAt := some (now + request.maxWall), createdAt := now, depth := 0 }
  let s ← s.insertRun fresh row
  let ledger ← s.ledger.addAccount fresh request.limits
  .ok (row, { s with ledger })

/-- `Scheduler.submit` with the message of the user. -/
def submitMessage (s : Store) (messages : Table MessageId Message) (owner : OwnerId)
    (session : SessionId) (request : Submission) (fresh : RunId) (message : MessageId)
    (contentParts : Json) (now : Time) : Except HarnessError (Table MessageId Message × Store) := do
  let (row, s) ← openRun s owner session request fresh now
  let (messages, s) ← addMessage s messages fresh
    { messageId := message, role := "user", contentParts } now
  .ok (messages, s.eventState fresh row .runQueued none now)

/-- The events that the context service and the model selection record in transactions of their
own. -/
def EventType.noted : EventType → Bool
  | .contextCompactionStarted | .contextCompactionFailed | .contextCompacted => true
  | .modelSelectionRequested | .modelSelectionSuperseded | .modelSelectionApplied => true
  | .modelSelectionRejected => true
  | _ => false

/-- What a transaction records of its own, and what it records together with `terminal_hook`. -/
inductive Hooked : List Entry → List Entry → Prop where
  | nil : Hooked [] []
  | own {new log : List Entry} (e : Entry) : Hooked new log → Hooked (e :: new) (e :: log)
  | hook {new log : List Entry} (rid : RunId) (payload : Json) (now : Time) : Hooked new log →
      Hooked new (⟨rid, .modelSelectionNotApplied, .record payload, now⟩ :: log)

inductive ChatAction where
  /-- A transaction of the scheduler and all that it records. -/
  | base (a : Action) (log : List Entry)
  | submit (owner : OwnerId) (session : SessionId) (request : Submission) (fresh : RunId)
      (message : MessageId) (contentParts : Json)
  | addMessage (rid : RunId) (payload : MessagePayload)
  | note (rid : RunId) (type : EventType) (payload : Json)

def Action.submits : Action → Bool
  | .submit .. => true
  | _ => false

/-- The transactions. -/
def ChatWorld.Step (host : Host) (w : ChatWorld) : ChatAction → ChatWorld → Prop
  | .base a log, w' => a.submits = false ∧ ∃ base new, World.next host w.base a = some base ∧
      base.store.events = new.foldl EventLog.record w.base.store.events ∧ Hooked new log ∧
      w' = { w with base := { base with store := { base.store with
        events := log.foldl EventLog.record w.base.store.events } } }
  | .submit owner session request fresh message contentParts, w' => ∃ messages store,
      submitMessage w.base.store w.messages owner session request fresh message contentParts
        w.base.now = .ok (messages, store) ∧ w' = ⟨{ w.base with store }, messages⟩
  | .addMessage rid payload, w' => ∃ messages store,
      MiHarness.addMessage w.base.store w.messages rid payload w.base.now = .ok (messages, store) ∧
        w' = ⟨{ w.base with store }, messages⟩
  | .note rid type payload, w' => type.noted = true ∧ (w.base.store.runs.get? rid).isSome ∧
      w' = { w with base := { w.base with
        store := w.base.store.event rid type (.record payload) w.base.now } }

def chatSystem (host : Host) : System ChatWorld ChatAction where
  init w := w.base.store = .initial ∧ w.messages = .empty
  step := ChatWorld.Step host

/-- The submission without its message is that of the scheduler. -/
theorem submit_eq_openRun (s : Store) (owner : OwnerId) (session : SessionId) (request : Submission)
    (fresh : RunId) (now : Time) : submit s owner session request fresh now = (do
      let (row, s) ← openRun s owner session request fresh now
      .ok (s.eventState fresh row .runQueued none now)) := by
  simp only [submit, openRun, bind_assoc]
  rfl

/-! ## What a transaction says -/

/-- A type has the data that the client expects of it. -/
def Entry.Told (e : Entry) : Prop :=
  (e.type = .messageCommitted → ∃ payload, e.data = .message payload) ∧
    (e.type.ofRun = true → ∃ revision status reason resultRef error,
      e.data = .state revision status reason resultRef error)

/-- The message that an event commits. -/
def Entry.commit (e : Entry) : Option (RunId × MessagePayload) :=
  match e.data with
  | .message payload => if e.type = .messageCommitted then some (e.runId, payload) else none
  | _ => none

structure Store.Speaks (s t : Store) (new : List Entry) : Prop where
  log : t.events = new.foldl EventLog.record s.events
  told : ∀ e ∈ new, e.Told
  tells : s.Tells t new
  places : ∀ rid run, s.runs.get? rid = some run →
    ∃ run', t.runs.get? rid = some run' ∧ run'.place = run.place

structure ChatWorld.Speaks (w w' : ChatWorld) (new : List Entry) : Prop where
  store : w.base.store.Speaks w'.base.store new
  /-- The transaction adds the message it commits, if any. -/
  messages : (w'.messages = w.messages ∧ new.filterMap Entry.commit = []) ∨
    ∃ row : Message, w.messages.insert? row.payload.messageId row = some w'.messages ∧
      new.filterMap Entry.commit = [(row.runId, row.payload)] ∧
      ∃ run, w'.base.store.runs.get? row.runId = some run ∧ run.branchId = row.branchId

variable {host : Host} {s s' t : Store} {now : Time} {w w' : ChatWorld}

theorem Entry.Sound.told {e : Entry} (h : e.Sound) : e.Told :=
  ⟨fun committed => absurd committed h.1, h.2⟩

theorem Entry.Sound.commit {e : Entry} (h : e.Sound) : e.commit = none := by
  unfold Entry.commit
  split
  · rw [if_neg h.1]
  · rfl

/-- An event that is about another run, or not about a state, tells nothing. -/
theorem Entry.tell_silent {rid : RunId} {e : Entry} (known : Nat × RunStatus)
    (silent : e.runId ≠ rid ∨ e.type.ofRun = false) : Entry.tell rid known e = known := by
  unfold Entry.tell
  split
  · rw [if_neg]
    rintro ⟨same, state, -⟩
    rcases silent with other | plain
    · exact other same
    · cases plain.symm.trans state
  · rfl

/-- Events that tell nothing of the runs that are there, while those runs stay. -/
theorem Store.Tells.silent {new : List Entry}
    (kept : ∀ rid run, s.runs.get? rid = some run → t.runs.get? rid = some run)
    (silent : ∀ rid run, s.runs.get? rid = some run →
      ∀ e ∈ new, e.runId ≠ rid ∨ e.type.ofRun = false) : s.Tells t new := by
  intro rid run known hrun bound
  have quiet : new.foldl (Entry.tell rid) (known, run.status) = (known, run.status) := by
    have each := silent rid run hrun
    clear silent
    induction new with
    | nil => rfl
    | cons e new ih =>
        rw [List.foldl_cons, Entry.tell_silent _ (each e (List.mem_cons_self ..))]
        exact ih fun e' he' => each e' (List.mem_cons_of_mem _ he')
  rw [quiet]
  exact ⟨run, kept rid run hrun, bound, rfl⟩

theorem Booked.speaks (h : Booked s t) : ∃ new, s.Speaks t new ∧ ∀ e ∈ new, e.Sound := by
  obtain ⟨new, log, sound, tells⟩ := h.log
  refine ⟨new, ⟨log, fun e he => (sound e he).told, tells, fun rid run hrun => ?_⟩, sound⟩
  have place := h.places rid
  rw [hrun, Option.map_some] at place
  exact Option.map_eq_some_iff.mp place

theorem Store.Speaks.branches {new : List Entry} (speaks : s.Speaks t new) {rid : RunId} {run : Run}
    (hrun : s.runs.get? rid = some run) :
    ∃ run', t.runs.get? rid = some run' ∧ run'.branchId = run.branchId := by
  obtain ⟨run', hrun', same⟩ := speaks.places rid run hrun
  simp only [Run.place, Prod.mk.injEq] at same
  exact ⟨run', hrun', same.2.2.2.1⟩

theorem insertRun_kept {rid : RunId} {row : Run} {runs : Table RunId Run}
    (h : s.runs.insert? rid row = some runs) {rid' : RunId} {run : Run}
    (hrun : s.runs.get? rid' = some run) : rid' ≠ rid ∧ runs.get? rid' = some run := by
  obtain ⟨fresh, read⟩ := Table.insert?_eq_some h
  have other : rid' ≠ rid := by
    rintro rfl
    cases fresh.symm.trans hrun
  exact ⟨other, by rw [read, if_neg other, hrun]⟩

theorem delegate_speaks {ctx : ExecutionContext} {key : OperationKey} {request : DelegateRequest}
    {allowed : List String} {ids : DelegateIds} {child : RunId}
    (h : delegate host s ctx key request allowed ids now = .ok (child, s')) :
    ∃ new, s.Speaks s' new ∧ ∀ e ∈ new, e.Sound := by
  unfold delegate at h
  obtain ⟨_, -, h⟩ := bind_eq_ok.mp h
  split at h
  · simp only [bind_eq_ok, require_eq_ok, exists_const, Except.ok.injEq, Prod.mk.injEq] at h
    exact h.2.2 ▸ Booked.refl.speaks
  · simp only [addChild, bind_eq_ok, require_eq_ok, exists_const, Except.ok.injEq,
      Prod.mk.injEq] at h
    obtain ⟨parent, -, root, -, -, -, _, ⟨ledger, -, t, hbranch, u, hinsert, v, hdependency,
      ledger', -, rfl⟩, -, rfl⟩ := h
    obtain ⟨branches, -, rfl, -⟩ := Store.addBranch_eq_ok hbranch
    obtain ⟨runs, hruns, rfl⟩ := Store.insertRun_eq_ok hinsert
    obtain ⟨dependencies, -, rfl⟩ := Store.addDependency_eq_ok hdependency
    have sound : ∀ e ∈ [Entry.mk ctx.runId .childCreated (.child ids.run request.goal .queued none) now,
        Entry.mk ids.run .runQueued (.state 1 .queued none none none) now], e.Sound := by
      intro e he
      simp only [List.mem_cons, List.not_mem_nil, or_false] at he
      rcases he with rfl | rfl
      · exact ⟨by simp, fun state => by cases state⟩
      · exact ⟨by simp, fun _ => ⟨_, _, _, _, _, rfl⟩⟩
    refine ⟨_, ⟨rfl, fun e he => (sound e he).told, .silent (fun rid run hrun =>
      (insertRun_kept hruns hrun).2) fun rid run hrun e he => ?_, fun rid run hrun =>
      ⟨run, (insertRun_kept hruns hrun).2, rfl⟩⟩, sound⟩
    simp only [List.mem_cons, List.not_mem_nil, or_false] at he
    rcases he with rfl | rfl
    · exact .inr rfl
    · exact .inl (insertRun_kept hruns hrun).1.symm

/-- Every transaction of the scheduler speaks of the runs it finds. -/
theorem perform_speaks {a : Action} (other : a.submits = false)
    (h : a.perform host s now = .ok s') : ∃ new, s.Speaks s' new ∧ ∀ e ∈ new, e.Sound := by
  by_cases creates : a.creates
  · cases a with
    | submit owner session request fresh => cases other
    | delegate ctx key request allowed ids =>
        obtain ⟨⟨child, t⟩, hdelegate, h⟩ := bind_eq_ok.mp h
        cases h
        exact delegate_speaks hdelegate
    | _ => cases creates
  · by_cases bills : a.bills
    · exact (perform_booked bills creates h).speaks
    · cases a with
      | reserve account key items =>
          obtain ⟨ledger, -, h⟩ := bind_eq_ok.mp h
          cases h
          obtain ⟨new, speaks, sound⟩ := (Booked.refl (s := s)).speaks
          exact ⟨new, ⟨speaks.log, speaks.told, speaks.tells, speaks.places⟩, sound⟩
      | settleReservation key actual =>
          obtain ⟨ledger, -, h⟩ := bind_eq_ok.mp h
          cases h
          obtain ⟨new, speaks, sound⟩ := (Booked.refl (s := s)).speaks
          exact ⟨new, ⟨speaks.log, speaks.told, speaks.tells, speaks.places⟩, sound⟩
      | _ => exact absurd trivial bills

/-- The events of the hook change nothing that is told. -/
theorem Hooked.tell {new log : List Entry} (h : Hooked new log) (rid : RunId) :
    ∀ known : Nat × RunStatus, log.foldl (Entry.tell rid) known = new.foldl (Entry.tell rid) known := by
  induction h with
  | nil => exact fun _ => rfl
  | own e _ ih =>
      intro known
      rw [List.foldl_cons, List.foldl_cons, ih]
  | hook rid' payload now _ ih =>
      intro known
      rw [List.foldl_cons, Entry.tell_silent known (.inr rfl), ih]

theorem Hooked.sound {new log : List Entry} (h : Hooked new log) (sound : ∀ e ∈ new, e.Sound) :
    ∀ e ∈ log, e.Sound := by
  induction h with
  | nil => exact sound
  | own e _ ih =>
      intro e' he'
      rcases List.mem_cons.mp he' with rfl | he'
      · exact sound e' (List.mem_cons_self ..)
      · exact ih (fun e'' he'' => sound e'' (List.mem_cons_of_mem _ he'')) e' he'
  | hook rid payload now _ ih =>
      intro e he
      rcases List.mem_cons.mp he with rfl | he
      · exact ⟨by simp, fun state => by cases state⟩
      · exact ih sound e he

/-- Events that commit no message leave the messages alone. -/
theorem ChatWorld.Speaks.quiet {new : List Entry} (speaks : w.base.store.Speaks w'.base.store new)
    (same : w'.messages = w.messages) (sound : ∀ e ∈ new, e.Sound) : w.Speaks w' new where
  store := speaks
  messages := .inl ⟨same, by
    rw [List.filterMap_eq_nil_iff]
    exact fun e he => (sound e he).commit⟩

/-- What adding a message does to the tables. -/
theorem addMessage_eq_ok {messages messages' : Table MessageId Message} {rid : RunId}
    {payload : MessagePayload} (h : addMessage s messages rid payload now = .ok (messages', s')) :
    (∃ existing, messages.get? payload.messageId = some existing ∧ existing.payload = payload ∧
      messages' = messages ∧ s' = s) ∨
    ∃ run, s.runs.get? rid = some run ∧
      messages.insert? payload.messageId ⟨rid, run.branchId, payload.role, payload⟩ = some messages' ∧
      s' = s.event rid .messageCommitted (.message payload) now := by
  simp only [addMessage, bind_eq_ok, Store.run_eq_ok] at h
  obtain ⟨run, hrun, h⟩ := h
  split at h
  · rename_i existing found
    simp only [bind_eq_ok, require_eq_ok, exists_const, Except.ok.injEq, Prod.mk.injEq] at h
    exact .inl ⟨existing, found, h.1, h.2.1.symm, h.2.2.symm⟩
  · simp only [bind_eq_ok, orThrow_eq_ok, Except.ok.injEq, Prod.mk.injEq] at h
    obtain ⟨messages', hinsert, rfl, rfl⟩ := h
    exact .inr ⟨run, hrun, hinsert, rfl⟩

theorem openRun_eq_ok {owner : OwnerId} {session : SessionId} {request : Submission}
    {fresh : RunId} {row : Run} (h : openRun s owner session request fresh now = .ok (row, s')) :
    s.runs.insert? fresh row = some s'.runs ∧ s'.events = s.events ∧ row.revision = 1 ∧
      row.status = .queued := by
  simp only [openRun, bind_eq_ok, require_eq_ok, exists_const, Except.ok.injEq, Prod.mk.injEq] at h
  obtain ⟨-, branch, -, -, t, hadvance, u, hinsert, ledger, -, rfl, rfl⟩ := h
  obtain rfl := Store.advanceBranch_eq_ok hadvance
  obtain ⟨runs, hruns, rfl⟩ := Store.insertRun_eq_ok hinsert
  exact ⟨hruns, rfl, rfl, rfl⟩

theorem EventType.noted_plain {type : EventType} (h : type.noted = true) :
    type.ofRun = false ∧ type ≠ .messageCommitted := by
  revert h
  cases type <;> decide

/-- What the transactions of the scheduler say, with the events of the hook among their own. -/
theorem speaks_hooked {new log : List Entry} (speaks : s.Speaks t new) (hooked : Hooked new log)
    (sound : ∀ e ∈ new, e.Sound) :
    s.Speaks { t with events := log.foldl EventLog.record s.events } log where
  log := rfl
  told e he := (hooked.sound sound e he).told
  tells rid run known hrun bound := by
    rw [hooked.tell]
    exact speaks.tells rid run known hrun bound
  places := speaks.places

/-- A message of a run that is there. -/
theorem message_speaks {rid : RunId} {run : Run} {payload : MessagePayload}
    {messages : Table MessageId Message} (hrun : w.base.store.runs.get? rid = some run)
    (hinsert : w.messages.insert? payload.messageId ⟨rid, run.branchId, payload.role, payload⟩ =
      some messages) :
    w.Speaks ⟨{ w.base with store := w.base.store.event rid .messageCommitted (.message payload) now },
      messages⟩ [⟨rid, .messageCommitted, .message payload, now⟩] where
  store := by
    refine ⟨rfl, fun e he => ?_, .silent (fun _ _ hrun => hrun) fun _ _ _ e he => ?_,
      fun rid run hrun => ⟨run, hrun, rfl⟩⟩
    · cases List.mem_singleton.mp he
      exact ⟨fun _ => ⟨payload, rfl⟩, fun state => by cases state⟩
    · cases List.mem_singleton.mp he
      exact .inr rfl
  messages := .inr ⟨⟨rid, run.branchId, payload.role, payload⟩, hinsert, rfl, run, hrun, rfl⟩

theorem submitMessage_eq_ok {messages messages' : Table MessageId Message} {owner : OwnerId}
    {session : SessionId} {request : Submission} {fresh : RunId} {message : MessageId}
    {contentParts : Json} (h : submitMessage s messages owner session request fresh message
      contentParts now = .ok (messages', s')) :
    ∃ row opened t, openRun s owner session request fresh now = .ok (row, opened) ∧
      addMessage opened messages fresh ⟨message, "user", contentParts, []⟩ now =
        .ok (messages', t) ∧
      s' = t.eventState fresh row .runQueued none now := by
  simp only [submitMessage, bind_eq_ok, Except.ok.injEq, Prod.mk.injEq] at h
  obtain ⟨⟨row, opened⟩, hopen, ⟨messages', t⟩, hadd, rfl, rfl⟩ := h
  exact ⟨row, opened, t, hopen, hadd, rfl⟩

theorem submitMessage_speaks {owner : OwnerId} {session : SessionId} {request : Submission}
    {fresh : RunId} {message : MessageId} {contentParts : Json}
    {messages : Table MessageId Message} (h : submitMessage w.base.store w.messages owner session
      request fresh message contentParts now = .ok (messages, s')) :
    ∃ new, w.Speaks ⟨{ w.base with store := s' }, messages⟩ new := by
  obtain ⟨row, opened, t, hopen, hadd, rfl⟩ := submitMessage_eq_ok h
  obtain ⟨hinsert, events, revision, status⟩ := openRun_eq_ok hopen
  -- the new run tells its own state, the runs that were there stay
  have tells : ∀ new : List Entry, (∀ e ∈ new, e.runId = fresh) → ∀ t : Store,
      t.runs = opened.runs → w.base.store.Tells t new := by
    intro new own t runs
    refine .silent (fun rid run hrun => runs ▸ (insertRun_kept hinsert hrun).2)
      fun rid run hrun e he => .inl ?_
    rw [own e he]
    exact (insertRun_kept hinsert hrun).1.symm
  have places : ∀ t : Store, t.runs = opened.runs → ∀ rid run,
      w.base.store.runs.get? rid = some run →
      ∃ run', t.runs.get? rid = some run' ∧ run'.place = run.place := fun t runs rid run hrun =>
    ⟨run, runs ▸ (insertRun_kept hinsert hrun).2, rfl⟩
  have queued : (Entry.mk fresh .runQueued (.state row.revision row.status none row.resultRef
      row.error) now).Told := ⟨fun committed => (by cases committed), fun _ => ⟨_, _, _, _, _, rfl⟩⟩
  rcases addMessage_eq_ok hadd with ⟨existing, found, -, rfl, rfl⟩ | ⟨run, hrun, hmessages, rfl⟩
  · refine ⟨[⟨fresh, .runQueued, .state row.revision row.status none row.resultRef row.error, now⟩],
      ⟨by rw [List.foldl_cons, List.foldl_nil, ← events]; rfl, fun e he => ?_,
        tells _ (fun e he => ?_) _ rfl, places _ rfl⟩, .inl ⟨rfl, rfl⟩⟩
    · exact List.mem_singleton.mp he ▸ queued
    · cases List.mem_singleton.mp he
      rfl
  · refine ⟨[⟨fresh, .messageCommitted, .message ⟨message, "user", contentParts, []⟩, now⟩,
        ⟨fresh, .runQueued, .state row.revision row.status none row.resultRef row.error, now⟩],
      ⟨by rw [List.foldl_cons, List.foldl_cons, List.foldl_nil, ← events]; rfl, fun e he => ?_,
        tells _ (fun e he => ?_) _ rfl, places _ rfl⟩, .inr ⟨⟨fresh, run.branchId, "user",
          ⟨message, "user", contentParts, []⟩⟩, hmessages, rfl, run, hrun, rfl⟩⟩
    · simp only [List.mem_cons, List.not_mem_nil, or_false] at he
      rcases he with rfl | rfl
      · exact ⟨fun _ => ⟨_, rfl⟩, fun state => by cases state⟩
      · exact queued
    · simp only [List.mem_cons, List.not_mem_nil, or_false] at he
      rcases he with rfl | rfl <;> rfl

/-- Every transaction speaks of the runs it finds. -/
theorem ChatWorld.Step.speaks {a : ChatAction} (h : w.Step host a w') : ∃ new, w.Speaks w' new := by
  cases a with
  | base a log =>
      obtain ⟨other, base, new, next, hlog, hooked, rfl⟩ := h
      refine ⟨log, ?_⟩
      obtain ⟨new', speaks, sound⟩ : ∃ new, w.base.store.Speaks base.store new ∧
          ∀ e ∈ new, e.Sound := by
        rcases World.next_perform next with ⟨later, rfl, -, rfl⟩ | ⟨-, store, hperform, rfl⟩
        · exact Booked.refl.speaks
        · exact perform_speaks other hperform
      obtain rfl := EventLog.foldl_record_inj (hlog.symm.trans speaks.log)
      exact .quiet (speaks_hooked speaks hooked sound) rfl (hooked.sound sound)
  | submit owner session request fresh message contentParts =>
      obtain ⟨messages, store, hsubmit, rfl⟩ := h
      exact submitMessage_speaks hsubmit
  | addMessage rid payload =>
      obtain ⟨messages, store, hadd, rfl⟩ := h
      rcases addMessage_eq_ok hadd with ⟨existing, -, -, rfl, rfl⟩ | ⟨run, hrun, hinsert, rfl⟩
      · obtain ⟨new, speaks, sound⟩ := (Booked.refl (s := w.base.store)).speaks
        exact ⟨new, .quiet speaks rfl sound⟩
      · exact ⟨_, message_speaks hrun hinsert⟩
  | note rid type payload =>
      obtain ⟨noted, -, rfl⟩ := h
      have sound : ∀ e ∈ [Entry.mk rid type (.record payload) w.base.now], e.Sound := by
        intro e he
        cases List.mem_singleton.mp he
        exact ⟨(EventType.noted_plain noted).2, fun state =>
          (by cases (EventType.noted_plain noted).1.symm.trans state)⟩
      refine ⟨_, .quiet ⟨rfl, fun e he => (sound e he).told, .silent (fun _ _ hrun => hrun)
        fun _ _ _ e he => .inr ?_, fun _ run hrun => ⟨run, hrun, rfl⟩⟩ rfl sound⟩
      cases List.mem_singleton.mp he
      exact (EventType.noted_plain noted).1

/-- Every transaction of the scheduler is one of the system. -/
theorem ChatWorld.Step.own {a : Action} {base : World} (other : a.submits = false)
    (h : World.next host w.base a = some base) :
    ∃ log, (chatSystem host).step w (.base a log) { w with base } := by
  obtain ⟨new, speaks⟩ : ∃ new, w.base.store.Speaks base.store new := by
    rcases World.next_perform h with ⟨later, rfl, -, rfl⟩ | ⟨-, store, hperform, rfl⟩
    · obtain ⟨new, speaks, -⟩ := (Booked.refl (s := w.base.store)).speaks
      exact ⟨new, speaks⟩
    · obtain ⟨new, speaks, -⟩ := perform_speaks other hperform
      exact ⟨new, speaks⟩
  have hooked : ∀ new : List Entry, Hooked new new := by
    intro new
    induction new with
    | nil => exact .nil
    | cons e new ih => exact .own e ih
  refine ⟨new, other, base, new, h, speaks.log, hooked new, ?_⟩
  rw [← speaks.log]

end MiHarness

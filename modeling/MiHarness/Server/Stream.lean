import MiHarness.Server.Projection

/-!
# The event stream

A connection reads the log of a run in batches after its cursor and yields the events of a batch
until their sizes exceed the limit, and then it ends: the client reconnects with the number of the
last event it has received.  What a client receives is always a prefix of the log after the number
it started from.  A connection that is opened behind the end of the log delivers nothing if and
only if the first event after its cursor exceeds the limit by itself.

Frames without a number (chunks of messages, heartbeats) move no cursor and are left out.
-/

namespace MiHarness

open Library

/-- `len(canonical_json(event).encode())`. -/
abbrev EventSize := RunEvent → Nat

/-- The bytes of the events of a batch, `1024 * 1024`. -/
def batchBytes : Nat := 1048576

/-- The events that are read at once. -/
def batchEvents : Nat := 128

/-- The generator `stream` of a request, and what it has yielded that the client has not received.
`opened` and `behind` are recorded for what is said of the connection: the cursor it was opened
with, and whether there were events after it. -/
structure Connection where
  opened : Nat
  behind : Bool
  cursor : Nat
  batch : List RunEvent := []
  size : Nat := 0
  /-- The last batch was empty. -/
  idle : Bool := false
  /-- The generator has returned. -/
  ended : Bool := false
  sent : List RunEvent := []

structure StreamWorld where
  chat : ChatWorld
  /-- The durable events that the client has received, oldest first. -/
  received : List RunEvent := []
  connection : Option Connection := none

inductive StreamAction where
  | transact (a : ChatAction)
  | connect
  | fetch
  | yield
  /-- The session has expired, which is looked at when there is nothing to send. -/
  | expire
  | receive
  /-- The client goes away, or the network loses the connection. -/
  | disconnect
  /-- The client has read the connection to its end. -/
  | finish

namespace StreamWorld

variable (rid : RunId) (start : Nat)

def log (w : StreamWorld) : EventLog := w.chat.base.store.events

/-- The number of the last event the client has received, or the one it started from. -/
def cursor (w : StreamWorld) : Nat := (w.received.getLast?.map RunEvent.seq).getD start

/-- `event_range`. -/
def eventRange (w : StreamWorld) : Nat × Nat :=
  let numbers := (w.log.eventsOf rid).map RunEvent.seq
  (numbers.head?.getD 1, numbers.getLast?.getD 0)

/-- One turn of the loop over a batch. -/
def yieldNext (size : EventSize) (c : Connection) : Option Connection :=
  match c.batch with
  | [] => none
  | e :: rest =>
      if batchBytes < c.size + size e then some { c with ended := true }
      else some { c with
        batch := rest, size := c.size + size e, cursor := e.seq, sent := c.sent ++ [e] }

/-- The state after an action of the server or of the client. -/
def next (size : EventSize) (w : StreamWorld) : StreamAction → Option StreamWorld
  | .transact _ => none
  | .connect =>
      let cursor := w.cursor start
      let c : Connection := { opened := cursor, behind := cursor < (w.eventRange rid).2, cursor }
      if w.connection.isNone ∧ (w.chat.base.store.runs.get? rid).isSome ∧
          cursor ≤ (w.eventRange rid).2 ∧ (w.eventRange rid).1 - 1 ≤ cursor then
        some { w with connection := some c }
      else none
  | .fetch => do
      let c ← w.connection
      if c.ended = false ∧ c.batch = [] then
        let batch := (w.log.after rid c.cursor).take batchEvents
        some { w with connection := some { c with batch, size := 0, idle := batch.isEmpty } }
      else none
  | .yield => do
      let c ← w.connection
      if c.ended = false then
        let c ← yieldNext size c
        some { w with connection := some c }
      else none
  | .expire => do
      let c ← w.connection
      if c.ended = false ∧ c.idle = true then
        some { w with connection := some { c with ended := true } }
      else none
  | .receive => do
      let c ← w.connection
      match c.sent with
      | [] => none
      | e :: rest => some { w with
          received := w.received ++ [e], connection := some { c with sent := rest } }
  | .disconnect => some { w with connection := none }
  | .finish => do
      let c ← w.connection
      if c.ended = true ∧ c.sent = [] then some { w with connection := none } else none

end StreamWorld

/-- A server and a client of the events of a run after a number. -/
def streamSystem (host : Host) (size : EventSize) (rid : RunId) (start : Nat) :
    System StreamWorld StreamAction where
  init w := (chatSystem host).init w.chat ∧ w.received = [] ∧ w.connection = none
  step w a w' := match a with
    | .transact a => ∃ chat, (chatSystem host).step w.chat a chat ∧ w' = { w with chat }
    | a => w.next rid start size a = some w'

/-! ## What a connection serves -/

variable {host : Host} {size : EventSize} {rid : RunId} {start : Nat} {w w' : StreamWorld}

/-- What holds of a connection: what the client has received, what is on its way and the rest of the
batch follow each other in the log; and a connection opened behind has an event to begin with,
which it yields unless the event exceeds the limit by itself. -/
structure Connection.Serves (size : EventSize) (start : Nat) (events received : List RunEvent)
    (c : Connection) : Prop where
  batch : received ++ c.sent ++ c.batch <+: events.drop start
  cursor : c.cursor = start + (received.length + c.sent.length)
  opened : start ≤ c.opened ∧ c.opened ≤ start + received.length
  first : c.behind = true → ∃ e, events[c.opened]? = some e ∧
    (c.cursor = c.opened → c.size = 0 ∧ c.idle = false ∧ (c.ended = true → batchBytes < size e)) ∧
    (c.cursor ≠ c.opened → size e ≤ batchBytes)

structure StreamWorld.Streams (size : EventSize) (rid : RunId) (start : Nat) (w : StreamWorld) :
    Prop where
  gapless : w.log.Gapless
  received : w.received <+: (w.log.eventsOf rid).drop start
  serves : ∀ c, w.connection = some c → c.Serves size start (w.log.eventsOf rid) w.received

/-- The event at a place after the start. -/
theorem getElem?_of_received {l events : List RunEvent} {i : Nat} {e : RunEvent}
    (h : l <+: events.drop start) (hi : l[i]? = some e) : events[start + i]? = some e := by
  obtain ⟨rest, same⟩ := h
  rw [← List.getElem?_drop, ← same, List.getElem?_append_left (List.getElem?_eq_some_iff.mp hi).1]
  exact hi

namespace Connection.Serves

variable {events received : List RunEvent} {c c' : Connection}

/-- The next event of a batch is the one after the cursor. -/
theorem next (h : c.Serves size start events received) {e : RunEvent} {rest : List RunEvent}
    (hbatch : c.batch = e :: rest) : events[c.cursor]? = some e := by
  rw [h.cursor]
  refine getElem?_of_received h.batch ?_
  rw [hbatch, List.getElem?_append_right (by simp)]
  simp

/-- The log has grown. -/
theorem grow (h : c.Serves size start events received) (more : List RunEvent) :
    c.Serves size start (events ++ more) received where
  batch := h.batch.trans ((List.prefix_append events more).drop start)
  cursor := h.cursor
  opened := h.opened
  first behind := by
    obtain ⟨e, he, first⟩ := h.first behind
    exact ⟨e, by rw [List.getElem?_append_left (List.getElem?_eq_some_iff.mp he).1, he], first⟩

theorem fetch (h : c.Serves size start events received) (done : c.batch = [])
    (open' : c.ended = false) (n : Nat) (positive : 0 < n) :
    Connection.Serves size start events received { c with
      batch := (events.drop c.cursor).take n, size := 0
      idle := ((events.drop c.cursor).take n).isEmpty } where
  batch := by
    obtain ⟨rest, same⟩ := h.batch
    have later : events.drop c.cursor = rest := by
      rw [h.cursor, ← List.drop_drop, ← same, done, List.append_nil]
      exact List.drop_left' (by simp)
    refine ⟨rest.drop n, ?_⟩
    dsimp only
    rw [later, List.append_assoc _ _ (rest.drop n), List.take_append_drop, ← same, done,
      List.append_nil]
  cursor := h.cursor
  opened := h.opened
  first behind := by
    obtain ⟨e, he, first⟩ := h.first behind
    refine ⟨e, he, fun same => ⟨rfl, ?_, fun ended => by cases open'.symm.trans ended⟩, first.2⟩
    have here : c.opened < events.length := (List.getElem?_eq_some_iff.mp he).1
    replace same : c.cursor = c.opened := same
    simp [same]
    omega

theorem yield (h : c.Serves size start events received)
    (numbered : ∀ i e, events[i]? = some e → e.seq = i + 1)
    (hc' : StreamWorld.yieldNext size c = some c') : c'.Serves size start events received := by
  unfold StreamWorld.yieldNext at hc'
  split at hc'
  · cases hc'
  rename_i e rest hbatch
  have next := h.next hbatch
  split at hc'
  · rename_i large
    cases hc'
    refine ⟨h.batch, h.cursor, h.opened, fun behind => ?_⟩
    obtain ⟨e', he', atStart, past⟩ := h.first behind
    refine ⟨e', he', fun same => ?_, past⟩
    obtain ⟨empty, busy, -⟩ := atStart same
    refine ⟨empty, busy, fun _ => ?_⟩
    rw [show c.cursor = c.opened from same, he'] at next
    cases next
    rwa [empty, Nat.zero_add] at large
  · rename_i fits
    cases hc'
    have seq := numbered _ _ next
    have bounds := h.opened
    have reached := h.cursor
    refine ⟨?_, ?_, h.opened, fun behind => ?_⟩
    · have batch := h.batch
      rw [hbatch] at batch
      simpa using batch
    · simp
      omega
    · obtain ⟨e', he', atStart, past⟩ := h.first behind
      refine ⟨e', he', fun same => ?_, fun _ => ?_⟩
      · replace same : e.seq = c.opened := same
        omega
      · by_cases same : c.cursor = c.opened
        · rw [same, he'] at next
          cases next
          have empty := (atStart same).1
          omega
        · exact past same

theorem expire (h : c.Serves size start events received) (idle : c.idle = true) :
    Connection.Serves size start events received { c with ended := true } where
  batch := h.batch
  cursor := h.cursor
  opened := h.opened
  first behind := by
    obtain ⟨e, he, atStart, past⟩ := h.first behind
    exact ⟨e, he, fun same => (by cases (atStart same).2.1.symm.trans idle), past⟩

theorem receive (h : c.Serves size start events received) {e : RunEvent} {rest : List RunEvent}
    (hsent : c.sent = e :: rest) :
    Connection.Serves size start events (received ++ [e]) { c with sent := rest } where
  batch := by
    have batch := h.batch
    rw [hsent] at batch
    simpa using batch
  cursor := by
    rw [h.cursor, hsent]
    simp
    omega
  opened := by
    have bounds := h.opened
    refine ⟨bounds.1, ?_⟩
    simp
    omega
  first := h.first

end Connection.Serves

namespace StreamWorld

theorem eventRange_snd (gapless : w.log.Gapless) (rid : RunId) :
    (w.eventRange rid).2 = (w.log.eventsOf rid).length := by
  rw [eventRange, gapless.length, (gapless rid).2, List.getLast?_map, List.getLast?_range]
  dsimp only
  split
  · rename_i empty
    rw [empty]
    rfl
  · simp
    omega

namespace Streams

/-- The client asks for what follows the events it has received. -/
theorem cursor (h : w.Streams size rid start) : w.cursor start = start + w.received.length := by
  rw [StreamWorld.cursor]
  cases hlast : w.received.getLast? with
  | none =>
      rw [List.getLast?_eq_none_iff.mp hlast]
      rfl
  | some e =>
      rw [List.getLast?_eq_getElem?] at hlast
      have bound := (List.getElem?_eq_some_iff.mp hlast).1
      have seq := h.gapless.seq (getElem?_of_received h.received hlast)
      simp only [Option.map_some, Option.getD_some]
      omega

theorem transact {a : ChatAction} {chat : ChatWorld} (h : w.Streams size rid start)
    (step : (chatSystem host).step w.chat a chat) :
    StreamWorld.Streams size rid start { w with chat } := by
  obtain ⟨new, speaks⟩ := ChatWorld.Step.speaks step
  obtain ⟨added, log⟩ : ∃ added, chat.base.store.events.eventsOf rid =
      w.log.eventsOf rid ++ added := by
    rw [speaks.store.log]
    exact EventLog.eventsOf_foldl new w.log rid
  refine ⟨?_, ?_, fun c hc => ?_⟩
  · show chat.base.store.events.Gapless
    rw [speaks.store.log]
    exact h.gapless.foldl new
  · show w.received <+: (chat.base.store.events.eventsOf rid).drop start
    rw [log]
    exact h.received.trans ((List.prefix_append _ added).drop start)
  · show c.Serves size start (chat.base.store.events.eventsOf rid) w.received
    rw [log]
    exact (h.serves c hc).grow added

theorem next {a : StreamAction} (h : w.Streams size rid start)
    (hnext : w.next rid start size a = some w') : w'.Streams size rid start := by
  have changed : ∀ c c', w.connection = some c → c'.Serves size start (w.log.eventsOf rid) w.received →
      StreamWorld.Streams size rid start { w with connection := some c' } := by
    intro c c' _ serves
    exact ⟨h.gapless, h.received, fun _ same => by cases same; exact serves⟩
  have closed : StreamWorld.Streams size rid start { w with connection := none } :=
    ⟨h.gapless, h.received, fun _ none => by cases none⟩
  cases a with
  | transact a => cases hnext
  | connect =>
      simp only [StreamWorld.next] at hnext
      split at hnext
      · cases hnext
        refine ⟨h.gapless, h.received, fun c same => ?_⟩
        cases same
        have here := h.cursor
        refine ⟨?_, ?_, ?_, fun behind => ?_⟩
        · show w.received ++ [] ++ [] <+: (w.log.eventsOf rid).drop start
          simpa using h.received
        · simpa using here
        · simp
          omega
        · have before : w.cursor start < (w.log.eventsOf rid).length := by
            rw [← eventRange_snd h.gapless rid]
            exact of_decide_eq_true behind
          exact ⟨_, List.getElem?_eq_getElem before, fun _ => ⟨rfl, rfl, fun ended => by cases ended⟩,
            fun other => absurd rfl other⟩
      · cases hnext
  | fetch =>
      obtain ⟨c, hc, hnext⟩ := Option.bind_eq_some_iff.mp hnext
      split at hnext
      · rename_i ready
        cases hnext
        rw [h.gapless.after]
        exact changed c _ hc ((h.serves c hc).fetch ready.2 ready.1 batchEvents (by decide))
      · cases hnext
  | yield =>
      obtain ⟨c, hc, hnext⟩ := Option.bind_eq_some_iff.mp hnext
      split at hnext
      · obtain ⟨c', hc', hnext⟩ := Option.bind_eq_some_iff.mp hnext
        cases hnext
        exact changed c _ hc ((h.serves c hc).yield (fun _ _ he => h.gapless.seq he) hc')
      · cases hnext
  | expire =>
      obtain ⟨c, hc, hnext⟩ := Option.bind_eq_some_iff.mp hnext
      split at hnext
      · rename_i idle
        cases hnext
        exact changed c _ hc ((h.serves c hc).expire idle.2)
      · cases hnext
  | receive =>
      obtain ⟨c, hc, hnext⟩ := Option.bind_eq_some_iff.mp hnext
      split at hnext
      · cases hnext
      · rename_i e rest hsent
        cases hnext
        have serves := (h.serves c hc).receive hsent
        refine ⟨h.gapless, ?_, fun _ same => by cases same; exact serves⟩
        exact ((List.prefix_append _ _).trans (List.prefix_append _ _)).trans serves.batch
  | disconnect =>
      cases hnext
      exact closed
  | finish =>
      obtain ⟨c, hc, hnext⟩ := Option.bind_eq_some_iff.mp hnext
      split at hnext
      · cases hnext
        exact closed
      · cases hnext

end Streams

end StreamWorld

theorem reachable_streams (h : (streamSystem host size rid start).Reachable w) :
    w.Streams size rid start := by
  refine h.invariant (I := StreamWorld.Streams size rid start) (fun w init => ?_)
    fun w a w' _ streams step => ?_
  · obtain ⟨⟨initial, -⟩, received, closed⟩ := init
    refine ⟨?_, ?_, fun c hc => by cases closed.symm.trans hc⟩
    · show w.chat.base.store.events.Gapless
      rw [initial]
      exact fun rid => ⟨Nat.le_refl _, rfl⟩
    · rw [received]
      exact List.nil_prefix
  · cases a with
    | transact a =>
        obtain ⟨chat, step, rfl⟩ := step
        exact streams.transact step
    | _ => exact streams.next step

theorem next_receive (h : w.next rid start size .receive = some w') :
    ∃ e, w'.received = w.received ++ [e] := by
  obtain ⟨c, -, h⟩ := Option.bind_eq_some_iff.mp h
  split at h
  · cases h
  · cases h
    exact ⟨_, rfl⟩

/-- A connection that was opened behind the end and that the server has ended has delivered an
event, if and only if the first event after its cursor does not exceed the limit by itself. -/
theorem delivers_iff (h : (streamSystem host size rid start).Reachable w) {c : Connection}
    (hc : w.connection = some c) (ended : c.ended = true) (arrived : c.sent = [])
    (behind : c.behind = true) : ∃ e, (w.log.eventsOf rid)[c.opened]? = some e ∧
      (c.opened < w.cursor start ↔ size e ≤ batchBytes) := by
  have streams := reachable_streams h
  have serves := streams.serves c hc
  have reached : c.cursor = w.cursor start := by
    rw [serves.cursor, streams.cursor, arrived]
    rfl
  obtain ⟨e, he, atStart, past⟩ := serves.first behind
  refine ⟨e, he, ?_⟩
  by_cases same : c.cursor = c.opened
  · have large := (atStart same).2.2 ended
    constructor
    · intro delivered
      omega
    · intro fits
      omega
  · have opened := serves.opened.2
    rw [← streams.cursor] at opened
    constructor
    · exact fun _ => past same
    · intro _
      omega

/-- A connection is opened before an event that does not exceed the limit by itself. -/
def StreamWorld.Fits (size : EventSize) (rid : RunId) (start : Nat) (w : StreamWorld)
    (a : StreamAction) : Prop :=
  a = .connect → ∀ e, (w.log.eventsOf rid)[w.cursor start]? = some e → size e ≤ batchBytes

theorem StreamWorld.Fits.connect
    (h : ((w.log.eventsOf rid)[w.cursor start]?).all (fun e => size e ≤ batchBytes) = true) :
    w.Fits size rid start .connect := by
  intro _ e he
  rw [he] at h
  exact of_decide_eq_true h

theorem StreamWorld.Fits.other {a : StreamAction} (h : a ≠ .connect) : w.Fits size rid start a :=
  fun same => absurd same h

/-- The client has read to its end a connection that was opened behind the end of the log. -/
def StreamWorld.Served (w : StreamWorld) : StreamAction → Bool
  | .finish => w.connection.any fun c => c.behind
  | _ => false

/-- The connections that have been served to their end are not more than the events received
before the one that is open, and that one fits. -/
structure Advances (size : EventSize) (rid : RunId) (start : Nat)
    (past : List (StreamWorld × StreamAction)) (w : StreamWorld) : Prop where
  received : (past.filter fun s => s.1.Served s.2).length ≤ w.received.length
  opened : ∀ c, w.connection = some c → start + (past.filter fun s => s.1.Served s.2).length ≤ c.opened
  fits : ∀ c e, w.connection = some c → c.behind = true →
    (w.log.eventsOf rid)[c.opened]? = some e → size e ≤ batchBytes

namespace Advances

variable {past : List (StreamWorld × StreamAction)} {a : StreamAction}

/-- A step that closes no connection and changes at most what the connection carries. -/
theorem carry (h : Advances size rid start past w) (silent : w.Served a = false)
    (more : w.received.length ≤ w'.received.length) (log : w'.log = w.log)
    (same : ∀ c', w'.connection = some c' →
      ∃ c, w.connection = some c ∧ c'.opened = c.opened ∧ c'.behind = c.behind) :
    Advances size rid start ((w, a) :: past) w' := by
  have count : (((w, a) :: past).filter fun s => s.1.Served s.2) =
      past.filter fun s => s.1.Served s.2 := List.filter_cons_of_neg (by simp [silent])
  refine ⟨?_, fun c' hc' => ?_, fun c' e hc' behind he => ?_⟩
  · rw [count]
    exact h.received.trans more
  · obtain ⟨c, hc, opened, -⟩ := same c' hc'
    rw [count, opened]
    exact h.opened c hc
  · obtain ⟨c, hc, opened, behind'⟩ := same c' hc'
    rw [log, opened] at he
    exact h.fits c e hc (behind' ▸ behind) he

theorem transact {b : ChatAction} {chat : ChatWorld} (h : Advances size rid start past w)
    (streams : w.Streams size rid start) (step : (chatSystem host).step w.chat b chat) :
    Advances size rid start ((w, .transact b) :: past) { w with chat } := by
  obtain ⟨new, speaks⟩ := ChatWorld.Step.speaks step
  obtain ⟨added, log⟩ : ∃ added, chat.base.store.events.eventsOf rid =
      w.log.eventsOf rid ++ added := by
    rw [speaks.store.log]
    exact EventLog.eventsOf_foldl new w.log rid
  refine ⟨h.received, h.opened, fun c e hc behind he => ?_⟩
  replace he : (chat.base.store.events.eventsOf rid)[c.opened]? = some e := he
  obtain ⟨e', he', -⟩ := (streams.serves c hc).first behind
  rw [log, List.getElem?_append_left (List.getElem?_eq_some_iff.mp he').1] at he
  exact h.fits c e hc behind he

theorem next (h : Advances size rid start past w) (streams : w.Streams size rid start)
    (delivers : ∀ c, w.connection = some c → c.ended = true → c.sent = [] → c.behind = true →
      ∃ e, (w.log.eventsOf rid)[c.opened]? = some e ∧
        (c.opened < w.cursor start ↔ size e ≤ batchBytes))
    (fits : w.Fits size rid start a) (hnext : w.next rid start size a = some w') :
    Advances size rid start ((w, a) :: past) w' := by
  cases a with
  | transact a => cases hnext
  | connect =>
      simp only [StreamWorld.next] at hnext
      split at hnext
      · cases hnext
        refine ⟨h.received, fun c hc => ?_, fun c e hc _ he => ?_⟩
        · cases hc
          have here := streams.cursor
          have count := h.received
          show start + (past.filter fun s => s.1.Served s.2).length ≤ w.cursor start
          omega
        · cases hc
          exact fits rfl e he
      · cases hnext
  | fetch =>
      obtain ⟨c, hc, hnext⟩ := Option.bind_eq_some_iff.mp hnext
      split at hnext
      · cases hnext
        exact h.carry rfl (Nat.le_refl _) rfl fun c' hc' => by cases hc'; exact ⟨c, hc, rfl, rfl⟩
      · cases hnext
  | yield =>
      obtain ⟨c, hc, hnext⟩ := Option.bind_eq_some_iff.mp hnext
      split at hnext
      · obtain ⟨c', hc', hnext⟩ := Option.bind_eq_some_iff.mp hnext
        cases hnext
        have same : c'.opened = c.opened ∧ c'.behind = c.behind := by
          unfold StreamWorld.yieldNext at hc'
          split at hc'
          · cases hc'
          · split at hc' <;> cases hc' <;> exact ⟨rfl, rfl⟩
        exact h.carry rfl (Nat.le_refl _) rfl fun _ hc'' => by cases hc''; exact ⟨c, hc, same⟩
      · cases hnext
  | expire =>
      obtain ⟨c, hc, hnext⟩ := Option.bind_eq_some_iff.mp hnext
      split at hnext
      · cases hnext
        exact h.carry rfl (Nat.le_refl _) rfl fun c' hc' => by cases hc'; exact ⟨c, hc, rfl, rfl⟩
      · cases hnext
  | receive =>
      obtain ⟨c, hc, hnext⟩ := Option.bind_eq_some_iff.mp hnext
      split at hnext
      · cases hnext
      · cases hnext
        exact h.carry rfl (by simp) rfl fun c' hc' => by cases hc'; exact ⟨c, hc, rfl, rfl⟩
  | disconnect =>
      cases hnext
      exact h.carry rfl (Nat.le_refl _) rfl fun _ none => by cases none
  | finish =>
      obtain ⟨c, hc, hnext⟩ := Option.bind_eq_some_iff.mp hnext
      split at hnext
      · rename_i done
        cases hnext
        by_cases behind : c.behind = true
        · -- the connection has delivered an event since it was opened
          obtain ⟨e, he, delivered⟩ := delivers c hc done.1 done.2 behind
          have later := delivered.mpr (h.fits c e hc behind he)
          have before := h.opened c hc
          have here := streams.cursor
          have served : w.Served .finish = true := by
            rw [StreamWorld.Served, hc]
            exact behind
          refine ⟨?_, fun _ none => (by cases none), fun _ _ none => (by cases none)⟩
          rw [List.filter_cons_of_pos (by simpa using served), List.length_cons]
          show _ ≤ w.received.length
          omega
        · have silent : w.Served .finish = false := by
            rw [StreamWorld.Served, hc]
            simpa using behind
          exact h.carry silent (Nat.le_refl _) rfl fun _ none => by cases none
      · cases hnext

end Advances

/-- In every run in which every connection is opened before an event that does not exceed the limit
by itself: the events of a run are numbered from one without a gap; the client has received, once
each and in order, the first of the events after the number it started from; every connection
that was opened behind the end of the log and that the server has ended has delivered an event; and
so there are no more such connections than events received. -/
theorem stream_delivers {past : List (StreamWorld × StreamAction)}
    (h : ((streamSystem host size rid start).restrict
      (StreamWorld.Fits size rid start)).History past w) :
    (w.log.eventsOf rid).map RunEvent.seq = (List.range (w.log.next rid - 1)).map (· + 1) ∧
    w.received <+: (w.log.eventsOf rid).drop start ∧
    (∀ c, w.connection = some c → c.ended = true → c.sent = [] → c.behind = true →
      c.opened < w.cursor start) ∧
    (past.filter fun s => s.1.Served s.2).length ≤ w.received.length := by
  have streams := reachable_streams h.reachable.of_restrict
  have advances : Advances size rid start past w := by
    refine h.invariant (I := Advances size rid start) (fun w init => ?_)
      fun past w a w' reach ih step => ?_
    · obtain ⟨-, -, closed⟩ := init
      exact ⟨Nat.zero_le _, fun c hc => (by cases closed.symm.trans hc),
        fun c _ hc => (by cases closed.symm.trans hc)⟩
    · obtain ⟨fits, step⟩ := step
      have reach := reach.of_restrict
      cases a with
      | transact b =>
          obtain ⟨chat, step, rfl⟩ := step
          exact ih.transact (reachable_streams reach) step
      | _ => exact ih.next (reachable_streams reach) (fun _ => delivers_iff reach) fits step
  refine ⟨(streams.gapless rid).2, streams.received, fun c hc ended arrived behind => ?_,
    advances.received⟩
  obtain ⟨e, he, delivered⟩ := delivers_iff h.reachable.of_restrict hc ended arrived behind
  exact delivered.mpr (advances.fits c e hc behind he)

namespace Sample

/-- `canonical_json` of the data of the events of a submission. -/
def canonicalData : EventData → String
  | .message payload => "\x7b\"content_parts\":" ++ payload.contentParts ++
      ",\"message_id\":\"" ++ unary.id payload.messageId ++ "\",\"role\":\"" ++ payload.role ++ "\"\x7d"
  | .state revision status _ _ _ => "\x7b\"error\":null,\"reason\":null,\"result_ref\":null," ++
      "\"revision\":" ++ toString revision ++ ",\"status\":\"" ++ status.label ++ "\"\x7d"
  | _ => "null"

/-- `canonical_json` of these events. -/
def canonicalEvent (e : RunEvent) : String :=
  "\x7b\"data\":" ++ canonicalData e.data ++ ",\"durability\":\"durable\",\"event_id\":\"" ++
    unary.id e.seq ++ "\",\"run_id\":\"" ++ unary.id e.runId ++ "\",\"schema_version\":1,\"seq\":" ++
    toString e.seq ++ ",\"timestamp\":\"" ++ unary.time e.timestamp ++ "\",\"type\":\"" ++
    e.type.text ++ "\"\x7d"

def canonicalSize : EventSize := fun e => (canonicalEvent e).utf8ByteSize

/-- The submissions on the branch of the samples. -/
theorem history_submitted {size : EventSize} {parts : Json}
    {tables : Table MessageId Message × Store}
    (post : submitMessage branched.store .empty 1 1 ⟨1, 1, 1, 1, "goal", ∅, 1000000⟩ 10 7 parts
      branched.now = .ok tables) :
    ∃ past, ((streamSystem Sample.host size 10 0).restrict (StreamWorld.Fits size 10 0)).History past
      ⟨⟨{ branched with store := tables.2 }, tables.1⟩, [], none⟩ := by
  have branch : World.next Sample.host start
      (.addBranch 1 { sessionId := 1, graphThreadKey := 5 }) = some branched :=
    (Option.some_get _).symm
  obtain ⟨log, added⟩ := ChatWorld.Step.own (w := ⟨Sample.start, .empty⟩) rfl branch
  have init : ((streamSystem Sample.host size 10 0).restrict (StreamWorld.Fits size 10 0)).History []
      ⟨⟨Sample.start, .empty⟩, [], none⟩ := .init ⟨⟨rfl, rfl⟩, rfl, rfl⟩
  have first : (streamSystem Sample.host size 10 0).step ⟨⟨Sample.start, .empty⟩, [], none⟩
      (.transact (.base (.addBranch 1 { sessionId := 1, graphThreadKey := 5 }) log))
      ⟨⟨branched, .empty⟩, [], none⟩ := ⟨_, added, rfl⟩
  have second : (streamSystem Sample.host size 10 0).step ⟨⟨branched, .empty⟩, [], none⟩
      (.transact (.submit 1 1 ⟨1, 1, 1, 1, "goal", ∅, 1000000⟩ 10 7 parts))
      ⟨⟨{ branched with store := tables.2 }, tables.1⟩, [], none⟩ := ⟨_, ⟨_, _, post, rfl⟩, rfl⟩
  exact ⟨_, (init.step ⟨.other (by simp), first⟩).step ⟨.other (by simp), second⟩⟩

/-- Run `10` has been submitted. -/
def watched : StreamWorld := ⟨⟨{ branched with store := posted.2 }, posted.1⟩, [], none⟩

/-- A client has connected. -/
def attached : StreamWorld :=
  (watched.next 10 0 canonicalSize .connect).get (by decide +kernel)

/-- The server has read a batch. -/
def fetched : StreamWorld := (attached.next 10 0 canonicalSize .fetch).get (by decide +kernel)

/-- The server has yielded the first event. -/
def yielded : StreamWorld := (fetched.next 10 0 canonicalSize .yield).get (by decide +kernel)

/-- The client has received it. -/
def informed : StreamWorld := (yielded.next 10 0 canonicalSize .receive).get (by decide +kernel)

end Sample

/-- A client has received the first event of a run. -/
theorem stream_delivers_first : ∃ past, ((streamSystem Sample.host Sample.canonicalSize 10 0).restrict
      (StreamWorld.Fits Sample.canonicalSize 10 0)).History past Sample.informed ∧
    Sample.informed.received ≠ [] ∧
    Sample.informed.received <+: (Sample.informed.log.eventsOf 10).drop 0 := by
  have post : submitMessage Sample.branched.store .empty 1 1 ⟨1, 1, 1, 1, "goal", ∅, 1000000⟩ 10 7
      "goal" Sample.branched.now = .ok Sample.posted := toOption_get _
  obtain ⟨past, submitted⟩ := Sample.history_submitted post
  have fits : Sample.watched.Fits Sample.canonicalSize 10 0 .connect := .connect (by decide +kernel)
  have connect : (streamSystem Sample.host Sample.canonicalSize 10 0).step Sample.watched .connect
      Sample.attached := (Option.some_get _).symm
  have fetch : (streamSystem Sample.host Sample.canonicalSize 10 0).step Sample.attached .fetch
      Sample.fetched := (Option.some_get _).symm
  have yield' : (streamSystem Sample.host Sample.canonicalSize 10 0).step Sample.fetched .yield
      Sample.yielded := (Option.some_get _).symm
  have receive : (streamSystem Sample.host Sample.canonicalSize 10 0).step Sample.yielded .receive
      Sample.informed := (Option.some_get _).symm
  have history := (((submitted.step ⟨fits, connect⟩).step ⟨.other (by simp), fetch⟩).step
    ⟨.other (by simp), yield'⟩).step ⟨.other (by simp), receive⟩
  obtain ⟨-, received, -⟩ := stream_delivers history
  refine ⟨_, history, ?_, received⟩
  obtain ⟨e, grown⟩ := next_receive receive
  rw [grown]
  simp

/-! ## An event that exceeds the limit by itself -/

theorem next_fetch {c : Connection} (hc : w.connection = some c) (open' : c.ended = false)
    (done : c.batch = []) : w.next rid start size .fetch = some { w with connection := some { c with
      batch := (w.log.after rid c.cursor).take batchEvents, size := 0
      idle := ((w.log.after rid c.cursor).take batchEvents).isEmpty } } := by
  rw [StreamWorld.next, hc]
  exact if_pos ⟨open', done⟩

/-- The generator returns at an event with which the batch exceeds the limit. -/
theorem yieldNext_large {c : Connection} {e : RunEvent} {rest : List RunEvent}
    (hbatch : c.batch = e :: rest) (large : batchBytes < c.size + size e) :
    StreamWorld.yieldNext size c = some { c with ended := true } := by
  rw [StreamWorld.yieldNext, hbatch]
  exact if_pos large

theorem next_yield {c c' : Connection} (hc : w.connection = some c) (open' : c.ended = false)
    (hc' : StreamWorld.yieldNext size c = some c') :
    w.next rid start size .yield = some { w with connection := some c' } := by
  rw [StreamWorld.next, hc]
  refine (if_pos open').trans ?_
  rw [hc']
  rfl

namespace Sample

/-- A part with a text. -/
def textPart (text : String) : Json := "\x7b\"text\":\"" ++ text ++ "\",\"type\":\"text\"\x7d"

/-- A part and as many more of it. -/
def listing (part : Json) : Nat → String
  | 0 => part
  | k + 1 => part ++ "," ++ listing part k

/-- Six parts with 200000 characters each. -/
def longParts : Json :=
  "[" ++ listing (textPart (String.ofList (List.replicate 200000 'x'))) 5 ++ "]"

theorem submits (parts : Json) : (submitMessage branched.store .empty 1 1
    ⟨1, 1, 1, 1, "goal", ∅, 1000000⟩ 10 7 parts branched.now).toOption.isSome = true := by
  rfl

/-- Run `10` has been submitted with long parts. -/
def overlong : Table MessageId Message × Store :=
  (submitMessage branched.store .empty 1 1 ⟨1, 1, 1, 1, "goal", ∅, 1000000⟩ 10 7 longParts
    branched.now).toOption.get (submits longParts)

/-- The event of the message. -/
def overlongEvent : RunEvent :=
  ⟨10, 1, .messageCommitted, .message ⟨7, "user", longParts, []⟩, branched.now⟩

theorem utf8ByteSize_replicate (n : Nat) : (String.ofList (List.replicate n 'x')).utf8ByteSize = n := by
  induction n with
  | zero => rfl
  | succ n ih =>
      rw [List.replicate_succ', String.ofList_append, String.utf8ByteSize_append, ih]
      rfl

theorem le_append_left {n : Nat} {s t : String} (h : n ≤ s.utf8ByteSize) :
    n ≤ (s ++ t).utf8ByteSize := by
  rw [String.utf8ByteSize_append]
  omega

theorem le_append_right {n : Nat} {s t : String} (h : n ≤ t.utf8ByteSize) :
    n ≤ (s ++ t).utf8ByteSize := by
  rw [String.utf8ByteSize_append]
  omega

/-- A message takes no less than its parts. -/
theorem le_canonicalSize {n : Nat} {rid : RunId} {seq : Nat} {type : EventType}
    {payload : MessagePayload} {at' : Time} (h : n ≤ payload.contentParts.utf8ByteSize) :
    n ≤ canonicalSize ⟨rid, seq, type, .message payload, at'⟩ := by
  have data : n ≤ (canonicalData (.message payload)).utf8ByteSize := by
    iterate 5 apply le_append_left
    exact le_append_right h
  show n ≤ (canonicalEvent _).utf8ByteSize
  iterate 11 apply le_append_left
  exact le_append_right data

theorem le_listing {n : Nat} {part : Json} (h : n ≤ part.utf8ByteSize) (k : Nat) :
    (k + 1) * n ≤ (listing part k).utf8ByteSize := by
  induction k with
  | zero => simpa [listing] using h
  | succ k ih =>
      have sizes : (listing part (k + 1)).utf8ByteSize =
          part.utf8ByteSize + ",".utf8ByteSize + (listing part k).utf8ByteSize := by
        rw [listing, String.utf8ByteSize_append, String.utf8ByteSize_append]
      rw [sizes, Nat.succ_mul (k + 1) n]
      omega

theorem longParts_size (n k : Nat) : (k + 1) * n ≤
    ("[" ++ listing (textPart (String.ofList (List.replicate n 'x'))) k ++ "]").utf8ByteSize := by
  have part : n ≤ (textPart (String.ofList (List.replicate n 'x'))).utf8ByteSize :=
    le_append_left (le_append_right (utf8ByteSize_replicate n).ge)
  exact le_append_left (le_append_right (le_listing part k))

theorem overlong_exceeds : batchBytes < canonicalSize overlongEvent :=
  lt_of_lt_of_le (b := (5 + 1) * 200000) (by decide)
    (le_canonicalSize (longParts_size 200000 5))

/-- The run is there, and its log has the message and the state. -/
theorem overlong_log : (overlong.2.runs.get? 10).isSome ∧
    ∃ e, overlong.2.events.eventsOf 10 = [overlongEvent, e] := by
  have post : submitMessage branched.store .empty 1 1 ⟨1, 1, 1, 1, "goal", ∅, 1000000⟩ 10 7
      longParts branched.now = .ok (overlong.1, overlong.2) := toOption_get (submits longParts)
  obtain ⟨row, opened, t, hopen, hadd, posted⟩ := submitMessage_eq_ok post
  obtain ⟨-, events, -, -⟩ := openRun_eq_ok hopen
  obtain ⟨existing, found, -⟩ | ⟨run, hrun, -, rfl⟩ := addMessage_eq_ok hadd
  · cases found
  have empty : opened.events = ⟨fun _ => 1, []⟩ := events.trans rfl
  refine ⟨?_, ⟨10, 2, .runQueued, .state row.revision row.status none row.resultRef row.error,
    branched.now⟩, ?_⟩
  · rw [posted]
    exact Option.isSome_of_eq_some hrun
  rw [posted]
  show (EventLog.record (EventLog.record opened.events
    ⟨10, .messageCommitted, .message ⟨7, "user", longParts, []⟩, branched.now⟩)
    ⟨10, .runQueued, .state row.revision row.status none row.resultRef row.error,
      branched.now⟩).eventsOf 10 = _
  rw [empty, EventLog.eventsOf_record, EventLog.eventsOf_record]
  rfl

/-- The run has been submitted. -/
def overlongStart : StreamWorld := ⟨⟨{ branched with store := overlong.2 }, overlong.1⟩, [], none⟩

theorem overlong_reachable :
    (streamSystem Sample.host canonicalSize 10 0).Reachable overlongStart := by
  have post : submitMessage branched.store .empty 1 1 ⟨1, 1, 1, 1, "goal", ∅, 1000000⟩ 10 7
      longParts branched.now = .ok overlong := toOption_get _
  obtain ⟨past, history⟩ := history_submitted post
  exact history.reachable.of_restrict

/-- A client of the run with a connection. -/
def connected (c : Connection) : StreamWorld := { overlongStart with connection := some c }

theorem overlong_connect : overlongStart.next 10 0 canonicalSize .connect =
    some (connected { opened := 0, behind := true, cursor := 0 }) := by
  obtain ⟨run, e, log⟩ := overlong_log
  have streams := reachable_streams overlong_reachable
  have last : (overlongStart.eventRange 10).2 = 2 := by
    rw [StreamWorld.eventRange_snd streams.gapless]
    exact congrArg List.length log
  have first : (overlongStart.eventRange 10).1 = 1 := by
    rw [StreamWorld.eventRange, show overlongStart.log.eventsOf 10 = _ from log]
    rfl
  have cursor : overlongStart.cursor 0 = 0 := rfl
  rw [StreamWorld.next, cursor, last, first]
  exact if_pos ⟨rfl, run, by decide, by decide⟩

end Sample

/-- A connection that the server ends before it has delivered anything: the message of the user
exceeds the limit by itself. -/
theorem stream_starves : ¬∀ (host : Host) (size : EventSize) (rid : RunId) (start : Nat)
    (w : StreamWorld), (streamSystem host size rid start).Reachable w →
    ∀ c, w.connection = some c → c.ended = true → c.sent = [] → c.behind = true →
      c.opened < w.cursor start := by
  intro progress
  obtain ⟨-, e, log⟩ := Sample.overlong_log
  have streams := reachable_streams Sample.overlong_reachable
  have batch : (Sample.overlongStart.log.after 10 0).take batchEvents =
      [Sample.overlongEvent, e] := by
    rw [streams.gapless.after, show Sample.overlongStart.log.eventsOf 10 = _ from log]
    rfl
  let c : Connection := { opened := 0, behind := true, cursor := 0 }
  let c' : Connection := { c with batch := [Sample.overlongEvent, e] }
  have opened : (streamSystem Sample.host Sample.canonicalSize 10 0).step Sample.overlongStart .connect
      (Sample.connected c) := Sample.overlong_connect
  have fetched : (streamSystem Sample.host Sample.canonicalSize 10 0).step (Sample.connected c) .fetch
      (Sample.connected c') := by
    have read : (Sample.connected c).next 10 0 Sample.canonicalSize .fetch = some (Sample.connected
        { c with
          batch := (Sample.overlongStart.log.after 10 0).take batchEvents
          idle := ((Sample.overlongStart.log.after 10 0).take batchEvents).isEmpty }) :=
      next_fetch (c := c) rfl rfl rfl
    rw [batch] at read
    exact read
  have ended : (streamSystem Sample.host Sample.canonicalSize 10 0).step (Sample.connected c') .yield
      (Sample.connected { c' with ended := true }) := by
    have large : batchBytes < c'.size + Sample.canonicalSize Sample.overlongEvent :=
      lt_of_lt_of_le Sample.overlong_exceeds (Nat.le_add_left _ _)
    exact next_yield (c := c') rfl rfl (yieldNext_large rfl large)
  have delivered := progress Sample.host Sample.canonicalSize 10 0 _
    (((Sample.overlong_reachable.step opened).step fetched).step ended) _ rfl rfl rfl rfl
  exact Nat.lt_irrefl 0 delivered

end MiHarness

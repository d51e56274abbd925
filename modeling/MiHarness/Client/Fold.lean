import MiHarness.Client.Reducer
import Mathlib.Tactic.Linarith
import Mathlib.Tactic.Ring

/-!
# The projection is a fold of the log

Whatever reaches the client, and in whatever order, the durable part of its projection is the fold
of the events of the log that follow the snapshot it has applied last, up to the sequence number
it has reached.  An event is applied only when its number is the next one, so duplicates change
nothing and a gap stops the projection until a snapshot.
-/

namespace MiHarness

open Library

/-! ## Logs and what of them reaches the client -/

/-- The durable events of a run: the event at place `i` has the number `i + 1`. -/
structure RunLog where
  runId : String
  events : List ObjectValue
  numbered : ∀ (i : Nat) (e : ObjectValue), events[i]? = some e → isText (e "run_id") runId = true ∧
    isText (e "durability") "durable" = true ∧ numberOf (e "seq") (-1) = (i : ℚ) + 1
  /-- A committed message has its identifier. -/
  named : ∀ e ∈ events, stringOf (e "type") = "message.committed" →
    ∃ m, objectOf (e "data") "message_id" = some (.string m)

namespace RunLog

variable {log : RunLog}

/-- A snapshot of the run at a place of the log. -/
def IsSnapshot (log : RunLog) (value : ObjectValue) : Prop :=
  value "run_id" = some (.string log.runId) ∧
    ∃ n ≤ log.events.length, numberOf (value "last_seq") = (n : ℚ)

/-- What the client can be given: snapshots, durable events of the log, other events of the stream
and disconnections. -/
inductive Delivers (log : RunLog) : RunAction → Prop where
  | snapshot {value : ObjectValue} : log.IsSnapshot value → Delivers log (.snapshot value)
  | durable {value : ObjectValue} : value ∈ log.events → Delivers log (.event value)
  | ephemeral {value : ObjectValue} :
      isText (value "durability") "ephemeral" = true → Delivers log (.event value)
  | disconnected : Delivers log .disconnected

end RunLog

/-- A client of the run under any deliveries. -/
def clientSystem (log : RunLog) : System RunProjection RunAction where
  init s := s = emptyRun log.runId
  step s a s' := log.Delivers a ∧ s' = runReducer s a

namespace RunProjection

variable {log : RunLog} {s s' : RunProjection} {value : ObjectValue}

/-- The part of the projection that comes from snapshots and durable events. -/
def durable (s : RunProjection) : RunProjection :=
  { s with streams := fun _ => none, needsRecovery := false }

/-- One durable event, as the fold applies it. -/
def foldEvent (s : RunProjection) (value : ObjectValue) : RunProjection :=
  (s.applyDurable (numberOf (value "seq") (-1)) value).durable

/-- The state that the latest snapshot applied in a run has given, or the empty one. -/
def base (log : RunLog) : List (RunProjection × RunAction) → RunProjection
  | [] => emptyRun log.runId
  | (s, .snapshot value) :: past =>
      if s.outdates value = true then base log past else ofSnapshot value
  | _ :: past => base log past

/-- The durable part after a durable event depends on the durable part before it. -/
theorem applyDurable_durable (s : RunProjection) (seq : ℚ) (value : ObjectValue) :
    (s.durable.applyDurable seq value).durable = (s.applyDurable seq value).durable := rfl

theorem durable_applyDelta (s : RunProjection) (value : ObjectValue) :
    (s.applyDelta value).durable = s.durable := by
  unfold applyDelta
  dsimp only
  split
  · rfl
  · split
    · rfl
    · split <;> rfl

/-- What an event does: it changes no durable part, or it is the next durable event. -/
theorem applyEvent_cases (s : RunProjection) (value : ObjectValue) :
    s.applyEvent value = s ∨
    (s.needsRecovery = false ∧ isText (value "run_id") s.runId = true ∧
      (s.applyEvent value = s.applyDelta value ∨
        s.applyEvent value = { s with needsRecovery := true } ∨
        (isText (value "durability") "ephemeral" = false ∧
          numberOf (value "seq") (-1) = s.lastAppliedDurableSeq + 1 ∧
          s.applyEvent value = s.applyDurable (numberOf (value "seq") (-1)) value))) := by
  unfold applyEvent
  dsimp only
  split
  · exact .inl rfl
  · rename_i open_
    push Not at open_
    have live : s.needsRecovery = false := by simpa using open_.2
    have here : isText (value "run_id") s.runId = true := by simpa using open_.1
    split
    · exact .inr ⟨live, here, .inl rfl⟩
    · rename_i durable
      split
      · exact .inl rfl
      · split
        · exact .inr ⟨live, here, .inr (.inl rfl)⟩
        · rename_i next
          push Not at next
          exact .inr ⟨live, here, .inr (.inr ⟨by simpa using durable, next, rfl⟩)⟩

end RunProjection

namespace RunLog

variable {log : RunLog}

/-- The events that follow place `n`, up to `k` of them. -/
def segment (log : RunLog) (n k : Nat) : List ObjectValue := (log.events.drop n).take k

theorem segment_succ {n k : Nat} {e : ObjectValue} (h : log.events[n + k]? = some e) :
    log.segment n (k + 1) = log.segment n k ++ [e] := by
  rw [segment, segment, List.take_add_one, List.getElem?_drop, h]
  rfl

/-- The event with the next number is the one at the next place. -/
theorem getElem?_of_seq {value : ObjectValue} (h : value ∈ log.events) {m : Nat}
    (next : numberOf (value "seq") (-1) = (m : ℚ) + 1) : log.events[m]? = some value := by
  obtain ⟨i, hi⟩ := List.mem_iff_getElem?.mp h
  have place : (i : ℚ) + 1 = m + 1 := (log.numbered i value hi).2.2.symm.trans next
  have same : i = m := by exact_mod_cast add_right_cancel place
  rw [← same]
  exact hi

theorem IsSnapshot.ofSnapshot {value : ObjectValue} (h : log.IsSnapshot value) :
    (RunProjection.ofSnapshot value).runId = log.runId ∧ ∃ n ≤ log.events.length,
      (RunProjection.ofSnapshot value).lastAppliedDurableSeq = (n : ℚ) := by
  obtain ⟨runId, n, bound, seq⟩ := h
  refine ⟨?_, n, bound, seq⟩
  rw [RunProjection.ofSnapshot, runId]
  rfl

end RunLog

namespace RunProjection

variable {log : RunLog} {s s' : RunProjection} {value : ObjectValue}

/-! ## Messages and streams -/

theorem upsert_eq_none {rows : Rows ObjectValue} {key : String} {value : ObjectValue}
    {own : List String} {name : String} (other : name ≠ key) (h : rows name = none) :
    upsert rows key value own name = none := by
  cases hkey : rows key with
  | none => simp [upsert, hkey, other, h]
  | some previous =>
      rw [upsert, hkey]
      dsimp only
      split
      · exact h
      · simp [other, h]

/-- No stream is of a message that is there. -/
def Uncommitted (s : RunProjection) : Prop :=
  ∀ name stream, s.streams name = some stream → s.messages stream.messageId = none

theorem Uncommitted.applyDurable (h : s.Uncommitted) {seq : ℚ}
    (named : stringOf (value "type") = "message.committed" →
      ∃ m, objectOf (value "data") "message_id" = some (.string m)) :
    (s.applyDurable seq value).Uncommitted := by
  intro name stream kept
  obtain ⟨before, keep⟩ := Option.filter_eq_some_iff.mp kept
  have absent := h name stream before
  by_cases committed : stringOf (value "type") = "message.committed"
  · obtain ⟨m, hm⟩ := named committed
    have other : stream.messageId ≠ m := by
      rintro rfl
      simp [committed, hm, isText] at keep
    show (upsertIf _ _ _ _ : Rows ObjectValue) _ = none
    rw [upsertIf, if_pos committed, hm]
    exact upsert_eq_none other absent
  · show (upsertIf _ _ _ _ : Rows ObjectValue) _ = none
    rw [upsertIf, if_neg committed]
    exact absent

theorem Uncommitted.applyDelta (h : s.Uncommitted) : (s.applyDelta value).Uncommitted := by
  unfold RunProjection.applyDelta
  dsimp only
  split
  · exact h
  · rename_i open_
    push Not at open_
    have absent : s.messages (stringOf (objectOf (value "data") "message_id")) = none := by
      simpa using open_.2.2
    split
    · exact h
    · split
      · exact h
      · intro name stream hstream
        dsimp only at hstream
        split at hstream
        · cases hstream
          exact absent
        · exact h name stream hstream

theorem Uncommitted.interrupt (h : s.Uncommitted) : s.interrupt.Uncommitted := by
  intro name stream hstream
  obtain ⟨before, hbefore, rfl⟩ := Option.map_eq_some_iff.mp hstream
  exact h name before hbefore

/-! ## The fold -/

/-- The durable part is the fold of the log from the latest snapshot on. -/
structure Folded (log : RunLog) (past : List (RunProjection × RunAction)) (s : RunProjection) :
    Prop where
  runId : s.runId = log.runId
  folds : ∃ n k : Nat, (base log past).lastAppliedDurableSeq = (n : ℚ) ∧
    s.lastAppliedDurableSeq = ((n + k : Nat) : ℚ) ∧ n + k ≤ log.events.length ∧
    s.durable = (log.segment n k).foldl foldEvent (base log past).durable

/-- A change that spares the durable part keeps the fold. -/
theorem Folded.silent {past : List (RunProjection × RunAction)} {a : RunAction}
    (h : Folded log past s) (same : s'.durable = s.durable)
    (kept : base log ((s, a) :: past) = base log past) : Folded log ((s, a) :: past) s' := by
  obtain ⟨n, k, start, reached, bound, folds⟩ := h.folds
  have seq := congrArg RunProjection.lastAppliedDurableSeq same
  have runId := congrArg RunProjection.runId same
  refine ⟨runId.trans h.runId, n, k, ?_, seq.trans reached, bound, ?_⟩
  · rw [kept, start]
  · rw [kept, same, folds]

theorem Folded.step {past : List (RunProjection × RunAction)} {a : RunAction}
    (h : Folded log past s) (delivers : log.Delivers a) :
    Folded log ((s, a) :: past) (runReducer s a) := by
  cases delivers with
  | @snapshot value snapshot =>
      by_cases old : s.outdates value = true
      · refine h.silent (by rw [runReducer, if_pos old]) ?_
        rw [base, if_pos old]
      · obtain ⟨runId, n, bound, seq⟩ := snapshot.ofSnapshot
        have fresh : base log ((s, .snapshot value) :: past) = ofSnapshot value := by
          rw [base, if_neg old]
        rw [runReducer, if_neg old]
        exact ⟨runId, n, 0, by rw [fresh, seq], by rw [seq]; rfl, bound, by rw [fresh]; rfl⟩
  | @durable value member =>
      rcases s.applyEvent_cases value with same | ⟨-, -, same | same | ⟨-, next, same⟩⟩
      · exact h.silent (by rw [runReducer, same]) rfl
      · exact h.silent (by rw [runReducer, same, durable_applyDelta]) rfl
      · exact h.silent (by rw [runReducer, same]; rfl) rfl
      · obtain ⟨n, k, start, reached, bound, folds⟩ := h.folds
        rw [reached] at next
        have here := log.getElem?_of_seq member next
        have more : n + k < log.events.length := (List.getElem?_eq_some_iff.mp here).1
        rw [runReducer, same]
        refine ⟨h.runId, n, k + 1, start, ?_, more, ?_⟩
        · show numberOf (value "seq") (-1) = _
          rw [next]
          push_cast
          ring
        · rw [log.segment_succ here, List.foldl_append, List.foldl_cons, List.foldl_nil]
          show _ = foldEvent (List.foldl foldEvent (base log past).durable _) value
          rw [← folds, foldEvent, applyDurable_durable]
  | @ephemeral value ephemeral =>
      rcases s.applyEvent_cases value with same | ⟨-, -, same | same | ⟨durable, -, -⟩⟩
      · exact h.silent (by rw [runReducer, same]) rfl
      · exact h.silent (by rw [runReducer, same, durable_applyDelta]) rfl
      · exact h.silent (by rw [runReducer, same]; rfl) rfl
      · cases durable.symm.trans ephemeral
  | disconnected => exact h.silent rfl rfl

theorem Uncommitted.step {a : RunAction} (h : s.Uncommitted) (delivers : log.Delivers a) :
    (runReducer s a).Uncommitted := by
  have ofEvent : ∀ value, (isText (value "durability") "ephemeral" = false →
      stringOf (value "type") = "message.committed" →
      ∃ m, objectOf (value "data") "message_id" = some (.string m)) →
      (s.applyEvent value).Uncommitted := by
    intro value named
    rcases s.applyEvent_cases value with same | ⟨-, -, same | same | ⟨durable, -, same⟩⟩
    · rw [same]
      exact h
    · rw [same]
      exact h.applyDelta
    · rw [same]
      exact h
    · rw [same]
      exact h.applyDurable (named durable)
  cases delivers with
  | @snapshot value _ =>
      rw [runReducer]
      split
      · exact h
      · exact fun _ _ none => by cases none
  | durable member => exact ofEvent _ fun _ => log.named _ member
  | ephemeral ephemeral => exact ofEvent _ fun durable => by cases durable.symm.trans ephemeral
  | disconnected => exact h.interrupt

/-- The number that has been reached does not decrease. -/
theorem lastAppliedDurableSeq_le {a : RunAction} (runId : s.runId = log.runId)
    (delivers : log.Delivers a) :
    s.lastAppliedDurableSeq ≤ (runReducer s a).lastAppliedDurableSeq := by
  have ofEvent : ∀ value, s.lastAppliedDurableSeq ≤ (s.applyEvent value).lastAppliedDurableSeq := by
    intro value
    rcases s.applyEvent_cases value with same | ⟨-, -, same | same | ⟨-, next, same⟩⟩
    · rw [same]
    · have kept := congrArg RunProjection.lastAppliedDurableSeq (s.durable_applyDelta value)
      rw [same]
      exact kept.ge
    · rw [same]
    · rw [same]
      show _ ≤ numberOf (value "seq") (-1)
      rw [next]
      linarith
  cases delivers with
  | @snapshot value snapshot =>
      rw [runReducer]
      split
      · exact le_refl _
      · rename_i newer
        have here : isText (value "run_id") s.runId = true := by
          rw [snapshot.1, runId]
          exact decide_eq_true rfl
        have newer : s.lastAppliedDurableSeq ≤ numberOf (value "last_seq") := by
          simpa [outdates, here] using newer
        exact newer
  | durable | ephemeral => exact ofEvent _
  | disconnected => exact le_refl _

/-! ## After a gap -/

/-- After a gap every event is passed over. -/
theorem applyEvent_of_needsRecovery (h : s.needsRecovery = true) (value : ObjectValue) :
    s.applyEvent value = s := by
  rcases s.applyEvent_cases value with same | ⟨live, -⟩
  · exact same
  · cases h.symm.trans live

theorem interrupt_interrupt (s : RunProjection) : s.interrupt.interrupt = s.interrupt := by
  have same : ∀ name, s.interrupt.interrupt.streams name = s.interrupt.streams name := by
    intro name
    show ((s.streams name).map _).map _ = (s.streams name).map _
    cases s.streams name <;> rfl
  show ({ s with streams := s.interrupt.interrupt.streams } : RunProjection) = _
  rw [funext same]
  rfl

/-- The action applies no snapshot. -/
def Passes (s : RunProjection) (a : RunAction) : Prop :=
  ∀ value, a = .snapshot value → s.outdates value = true

/-- After a gap a step that applies no snapshot at most interrupts the streams. -/
theorem runReducer_of_needsRecovery {a : RunAction} (gap : s.needsRecovery = true)
    (passes : s.Passes a) : runReducer s a = s ∨ runReducer s a = s.interrupt := by
  cases a with
  | snapshot value => exact .inl (by rw [runReducer, if_pos (passes value rfl)])
  | event value => exact .inl (applyEvent_of_needsRecovery gap value)
  | disconnected => exact .inr rfl

/-- After a gap a run that applies no snapshot at most interrupts the streams. -/
theorem path_of_needsRecovery (gap : s.needsRecovery = true)
    (path : ((clientSystem log).restrict Passes).Path s s') : s' = s ∨ s' = s.interrupt := by
  induction path with
  | refl => exact .inl rfl
  | tail _ step ih =>
      obtain ⟨passes, -, rfl⟩ := step
      rcases ih with rfl | rfl
      · exact runReducer_of_needsRecovery gap passes
      · have still : s.interrupt.needsRecovery = true := gap
        rcases runReducer_of_needsRecovery still passes with same | same
        · exact .inr same
        · exact .inr (same.trans s.interrupt_interrupt)

end RunProjection

/-- In every run of a client, the durable part of the projection is the fold of exactly the events
of the log that follow the snapshot it has applied last, in order, up to the number it has
reached; that number does not decrease; after a gap an event changes nothing at all, and until a
snapshot is applied a disconnection at most interrupts the streams; and no stream is kept for a
message that has been committed. -/
theorem client_folds {log : RunLog} {past : List (RunProjection × RunAction)} {s : RunProjection}
    (h : (clientSystem log).History past s) :
    (∃ n k : Nat, (RunProjection.base log past).lastAppliedDurableSeq = (n : ℚ) ∧
      s.lastAppliedDurableSeq = ((n + k : Nat) : ℚ) ∧ n + k ≤ log.events.length ∧
      s.durable = (log.segment n k).foldl RunProjection.foldEvent
        (RunProjection.base log past).durable) ∧
    (∀ a s', (clientSystem log).step s a s' → s.lastAppliedDurableSeq ≤ s'.lastAppliedDurableSeq) ∧
    (s.needsRecovery = true →
      (∀ value s', (clientSystem log).step s (.event value) s' → s' = s) ∧
      (∀ s', ((clientSystem log).restrict RunProjection.Passes).Path s s' →
        s' = s ∨ s' = s.interrupt) ∧
      ∀ value s', (clientSystem log).step s (.snapshot value) s' →
        s.outdates value = true ∧ s' = s ∨ s' = .ofSnapshot value) ∧
    ∀ name stream, s.streams name = some stream → s.messages stream.messageId = none := by
  have folded : RunProjection.Folded log past s ∧ s.Uncommitted := by
    refine h.invariant (I := fun past s => RunProjection.Folded log past s ∧ s.Uncommitted)
      (fun s start => ?_) fun past s a s' _ ih step => ?_
    · cases start
      exact ⟨⟨rfl, 0, 0, rfl, rfl, Nat.zero_le _, rfl⟩, fun _ _ none => by cases none⟩
    · obtain ⟨delivers, rfl⟩ := step
      exact ⟨ih.1.step delivers, ih.2.step delivers⟩
  refine ⟨folded.1.folds, fun a s' step => ?_, fun gap => ⟨fun value s' step => ?_,
    fun s' path => RunProjection.path_of_needsRecovery gap path, fun value s' step => ?_⟩, folded.2⟩
  · obtain ⟨delivers, rfl⟩ := step
    exact RunProjection.lastAppliedDurableSeq_le folded.1.runId delivers
  · obtain ⟨-, rfl⟩ := step
    exact RunProjection.applyEvent_of_needsRecovery gap value
  · obtain ⟨-, rfl⟩ := step
    by_cases old : s.outdates value = true
    · exact .inl ⟨old, by rw [runReducer, if_pos old]⟩
    · exact .inr (by rw [runReducer, if_neg old])

namespace Sample

/-- An object with the given properties. -/
def fields (entries : List (String × Value)) : ObjectValue := fun name => List.lookup name entries

def durableEvent (seq : Nat) (eventType : String) (data : List (String × Value)) : ObjectValue :=
  fields [("run_id", .string "run"), ("durability", .string "durable"), ("seq", .number seq),
    ("type", .string eventType), ("data", .object (fields data))]

def startedEvent : ObjectValue :=
  durableEvent 1 "run.started" [("revision", .number 2), ("status", .string "running")]

def committedEvent : ObjectValue :=
  durableEvent 2 "message.committed" [("message_id", .string "m"), ("role", .string "assistant")]

/-- A run that has started and committed a message. -/
def runLog : RunLog where
  runId := "run"
  events := [startedEvent, committedEvent]
  numbered i e h := by
    rcases i with _ | _ | _
    · cases h
      exact ⟨rfl, rfl, show ((1 : Nat) : ℚ) = (0 : Nat) + 1 by norm_num⟩
    · cases h
      exact ⟨rfl, rfl, show ((2 : Nat) : ℚ) = (0 + 1 : Nat) + 1 by norm_num⟩
    · cases h
  named e he committed := by
    rcases List.mem_cons.mp he with rfl | he
    · exact absurd committed (by decide)
    · cases List.mem_singleton.mp he
      exact ⟨"m", rfl⟩

def snapshotAt (seq : Nat) : ObjectValue :=
  fields [("run_id", .string "run"), ("last_seq", .number seq), ("status", .string "running")]

end Sample

/-- The second event comes first, then a snapshot closes the gap, then the event comes again. -/
theorem client_folds_gap : ∃ (past : List (RunProjection × RunAction)) (s : RunProjection) (n k : Nat),
    (clientSystem Sample.runLog).History past s ∧ s.lastAppliedDurableSeq = 2 ∧
    (s.messages "m").isSome = true ∧
    s.durable = (Sample.runLog.segment n k).foldl RunProjection.foldEvent
      (RunProjection.base Sample.runLog past).durable := by
  have committed : Sample.runLog.Delivers (.event Sample.committedEvent) :=
    .durable (List.mem_cons_of_mem _ (List.mem_cons_self ..))
  have snapshot : Sample.runLog.Delivers (.snapshot (Sample.snapshotAt 1)) :=
    .snapshot ⟨rfl, 1, by decide, rfl⟩
  have start : (clientSystem Sample.runLog).History [] (emptyRun "run") := .init rfl
  have history := ((start.step ⟨committed, rfl⟩).step ⟨snapshot, rfl⟩).step ⟨committed, rfl⟩
  obtain ⟨⟨n, k, -, -, -, folds⟩, -⟩ := client_folds history
  exact ⟨_, _, n, k, history, by decide +kernel, by decide +kernel, folds⟩

end MiHarness

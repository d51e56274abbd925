import MiHarness.Runtime.Commands
import MiHarness.Server.Projection

/-!
# What a model call is bound to

Users select, workers choose a candidate, bind or reject, runs end and workers die, in any order.  What
holds of the tables holds throughout, and so does that a candidate in the hands of a worker was desired
at its revision: if the control still has this revision when the call is bound, the candidate is what it
desires.
-/

namespace MiHarness

open Library

variable {host : Host} {m : Models} {s : Store} {t' : ModelTables} {rid : RunId} {w w' : SelectionWorld}

namespace SelectionWorld

/-- What holds in every reachable state. -/
structure Sound (m : Models) (w : SelectionWorld) : Prop where
  tables : w.tables.Sound m w.store.runs
  quiet : ∀ rid c, w.tables.controls.get? rid = some c → w.store.Ended rid → c.status ≠ .requested
  own : ∀ id task, w.tasks.get? id = some task → task.logicalCallId.runId = task.ctx.runId
  prepared : ∀ id task candidate, w.tasks.get? id = some task → task.state = .prepared candidate →
    ModelSelection.Prepared m w.store.runs w.tables task.ctx task.logicalCallId candidate

theorem Sound.setTask {id : TaskId} {task : ModelTask} (h : w.Sound m)
    (own : task.logicalCallId.runId = task.ctx.runId)
    (prepared : ∀ candidate, task.state = .prepared candidate →
      ModelSelection.Prepared m w.store.runs w.tables task.ctx task.logicalCallId candidate) :
    (w.setTask id task).Sound m where
  tables := h.tables
  quiet := h.quiet
  own id' task' saved := by
    rw [SelectionWorld.setTask, Table.get?_put] at saved
    split at saved
    · cases saved
      exact own
    · exact h.own id' task' saved
  prepared id' task' candidate saved at_ := by
    rw [SelectionWorld.setTask, Table.get?_put] at saved
    split at saved
    · cases saved
      exact prepared candidate at_
    · exact h.prepared id' task' candidate saved at_

theorem Sound.endTask (h : w.Sound m) (id : TaskId) : (w.endTask id).Sound m where
  tables := h.tables
  quiet := h.quiet
  own id' task saved := by
    rw [SelectionWorld.endTask, Table.get?_erase] at saved
    split at saved
    · cases saved
    · exact h.own id' task saved
  prepared id' task candidate saved := by
    rw [SelectionWorld.endTask, Table.get?_erase] at saved
    split at saved
    · cases saved
    · exact h.prepared id' task candidate saved

/-- A transaction of the selection, after which the control of its run is not requested unless the
run goes on. -/
theorem Sound.commit (h : w.Sound m) (transacts : w.tables.Transacts m w.store.runs t' rid)
    (quiet : ∀ c, t'.controls.get? rid = some c → w.store.Ended rid → c.status ≠ .requested)
    (log : List Entry) : (w.commit t' log).Sound m where
  tables := h.tables.transacts transacts
  quiet other c saved ended := by
    by_cases same : other = rid
    · subst same
      exact quiet c saved ended
    · exact h.quiet other c (transacts.touches.controls other same ▸ saved) ended
  own := h.own
  prepared id task candidate saved at_ := by
    obtain ⟨named, own, run, hrun, desired⟩ := h.prepared id task candidate saved at_
    exact ⟨named, own, run, hrun, transacts.touches.desired desired⟩

theorem Sound.unchanged (h : w.Sound m) (log : List Entry) : (w.commit w.tables log).Sound m :=
  ⟨h.tables, h.quiet, h.own, h.prepared⟩

/-- Runs keep their snapshots. -/
theorem kept {a : ChatAction} {chat : ChatWorld} (step : w.chat.Step host a chat) {rid : RunId}
    {run : Run} (hrun : w.store.runs.get? rid = some run) :
    ∃ run', chat.base.store.runs.get? rid = some run' ∧ run'.snapshotId = run.snapshotId := by
  obtain ⟨new, speaks⟩ := step.speaks
  obtain ⟨run', hrun', same⟩ := speaks.store.places rid run hrun
  simp only [Run.place, Prod.mk.injEq] at same
  exact ⟨run', hrun', same.2.2.2.2⟩

theorem Sound.chat {a : ChatAction} {chat : ChatWorld} {order : List RunId} {finished : List Entry}
    (h : w.Sound m) (step : w.chat.Step host a chat)
    (ends : ∀ rid, rid ∈ order ↔ chat.base.store.Ended rid ∧ ¬w.store.Ended rid)
    (hfinish : ModelSelection.finishAll m chat.base.store w.now w.tables order = .ok (t', finished)) :
    Sound m { w with chat, tables := t' } := by
  obtain ⟨sound, -, desired, others, closes⟩ :=
    ModelSelection.finishAll_closes (h.tables.places fun _ _ => kept step) hfinish
  refine ⟨sound, fun rid c saved ended => ?_, h.own, fun id task candidate saved at_ => ?_⟩
  · by_cases here : rid ∈ order
    · exact closes rid c here saved
    · have before : w.store.Ended rid := by
        by_contra open_
        exact here ((ends rid).mpr ⟨ended, open_⟩)
      exact h.quiet rid c (others rid here ▸ saved) before
  · obtain ⟨named, own, run, hrun, before⟩ := h.prepared id task candidate saved at_
    obtain ⟨run', hrun', same⟩ := kept step hrun
    exact ⟨named, own, run', hrun', same ▸ desired _ _ _ _ before⟩

/-- A binding of the call that was looked up is a candidate of the call. -/
theorem Sound.bound {call : LogicalCall} {b : ModelCallBinding} {ctx : ExecutionContext}
    (h : w.Sound m) (own : call.runId = ctx.runId) (saved : w.tables.bindings.get? call = some b) :
    ModelSelection.Prepared m w.store.runs w.tables ctx call b := by
  obtain ⟨named, here, run, hrun⟩ := h.tables.bindings call b saved
  have same : b.runId = ctx.runId := here.trans own
  rw [same] at hrun
  refine ⟨named, same, run, hrun, (h.tables.served _ run hrun).bound b ?_⟩
  exact List.mem_map.mpr ⟨(call, b), Table.mem_select.mpr ⟨saved, decide_eq_true same⟩, rfl⟩

theorem Sound.step {a : SelectionAction} (h : w.Sound m) (step : w.Step host m a w') : w'.Sound m := by
  cases a with
  | chat a =>
      obtain ⟨-, chat, order, tables, finished, step, -, ends, hfinish, -, rfl⟩ := step
      exact h.chat step ends hfinish
  | select owner rid request validate identity =>
      obtain ⟨fresh, tables, log, hselect, rfl⟩ := step
      obtain ⟨transacts, -, live⟩ := ModelSelection.select_transacts h.tables fresh hselect
      exact h.commit transacts (fun _ _ ended => absurd ended live) log
  | call id ctx messages step =>
      obtain ⟨-, rfl⟩ := step
      exact h.setTask rfl fun candidate at_ => by cases at_
  | lookup id =>
      obtain ⟨task, saved, -, -, binding, hlookup, rfl⟩ := step
      refine h.setTask (h.own id task saved) fun candidate at_ => ?_
      simp only [ModelSelection.lookup, bind_eq_ok, Except.ok.injEq] at hlookup
      obtain ⟨-, -, found⟩ := hlookup
      cases binding with
      | none => cases at_
      | some b =>
          cases at_
          exact h.bound (h.own id task saved) found
  | candidate id =>
      obtain ⟨task, saved, -, candidate, hcandidate, rfl⟩ := step
      refine h.setTask (h.own id task saved) fun candidate' at_ => ?_
      cases at_
      simp only [ModelSelection.fromControl, bind_eq_ok, ModelSelection.control_eq_ok,
        Except.ok.injEq] at hcandidate
      obtain ⟨c, ⟨run, hrun, rfl⟩, rfl⟩ := hcandidate
      exact ⟨rfl, rfl, run, hrun, (h.tables.commanded _ run hrun).desired⟩
  | bind id view =>
      obtain ⟨task, candidate, saved, at_, bound, tables, log, hbind, rfl⟩ := step
      have after : (w.commit tables log).Sound m := by
        rcases ModelSelection.bind_transacts h.tables (h.own id task saved)
          (h.prepared id task candidate saved at_) hbind with rfl | ⟨transacts, -, quiet⟩
        · exact h.unchanged log
        · exact h.commit transacts (fun c saved _ => quiet c saved) log
      split
      · exact after.endTask id
      · exact after.setTask (h.own id task saved) fun candidate at_ => by cases at_
  | reject id code =>
      obtain ⟨task, candidate, saved, at_, tables, log, hreject, rfl⟩ := step
      refine Sound.endTask ?_ id
      rcases ModelSelection.reject_transacts h.tables hreject with rfl | ⟨transacts, -, quiet⟩
      · exact h.unchanged log
      · exact h.commit transacts (fun c saved _ => quiet c saved) log
  | crash id =>
      cases step
      exact h.endTask id

theorem sound (h : (selectionSystem host m).Reachable w) : w.Sound m := by
  refine h.invariant (fun w start => ?_) fun w a w' _ sound step => sound.step step
  obtain ⟨-, tables, tasks⟩ := start
  refine ⟨?_, fun rid c saved => ?_, fun id task saved => ?_, fun id task candidate saved => ?_⟩
  · rw [tables]
    exact ModelTables.Sound.empty.places fun _ _ h => by cases h
  · rw [tables] at saved
    cases saved
  · rw [tasks] at saved
    cases saved
  · rw [tasks] at saved
    cases saved

/-- A step makes one binding or none. -/
theorem Step.binds {a : SelectionAction} (h : w.Sound m) (step : w.Step host m a w') :
    w'.tables.bindings = w.tables.bindings ∨
      ∃ b, ModelSelection.Binds m w.store.runs w.tables w'.tables b := by
  cases a with
  | chat a =>
      obtain ⟨-, chat, order, tables, finished, step, -, -, hfinish, -, rfl⟩ := step
      exact .inl (ModelSelection.finishAll_closes (h.tables.places fun _ _ => kept step) hfinish).2.1
  | select owner rid request validate identity =>
      obtain ⟨fresh, tables, log, hselect, rfl⟩ := step
      exact .inl (ModelSelection.select_transacts h.tables fresh hselect).2.1
  | bind id view =>
      obtain ⟨task, candidate, saved, at_, bound, tables, log, hbind, rfl⟩ := step
      have same : ∀ u : SelectionWorld, u = (if bound.isSome then (w.commit tables log).endTask id else
          (w.commit tables log).setTask id
            { task with state := .begun, preparation := task.preparation + 1 }) →
          u.tables = tables := by
        rintro u rfl
        split <;> rfl
      rw [same _ rfl]
      rcases ModelSelection.bind_transacts h.tables (h.own id task saved)
        (h.prepared id task candidate saved at_) hbind with rfl | ⟨-, ⟨b, -, binds⟩, -⟩
      · exact .inl rfl
      · exact .inr ⟨b, binds⟩
  | reject id code =>
      obtain ⟨task, candidate, saved, at_, tables, log, hreject, rfl⟩ := step
      rcases ModelSelection.reject_transacts h.tables hreject with rfl | ⟨-, bindings, -⟩
      · exact .inl rfl
      · exact .inl bindings
  | call id ctx messages step =>
      obtain ⟨-, rfl⟩ := step
      exact .inl rfl
  | lookup id =>
      obtain ⟨task, saved, -, -, binding, -, rfl⟩ := step
      exact .inl rfl
  | candidate id =>
      obtain ⟨task, saved, -, candidate, -, rfl⟩ := step
      exact .inl rfl
  | crash id =>
      cases step
      exact .inl rfl

/-- A binding stays as it is. -/
theorem Step.bound {a : SelectionAction} (h : w.Sound m) (step : w.Step host m a w')
    {call : LogicalCall} {b : ModelCallBinding} (saved : w.tables.bindings.get? call = some b) :
    w'.tables.bindings.get? call = some b := by
  rcases step.binds h with same | ⟨b', binds⟩
  · rw [same, saved]
  · obtain ⟨fresh, read⟩ := Table.insert?_eq_some binds.insert
    rw [read, if_neg, saved]
    rintro rfl
    cases fresh.symm.trans saved

/-- What is noted is noted by steps of the others. -/
theorem notes_path {log : List Entry} (chat : ChatWorld)
    (notes : ModelSelection.Notes chat.base.store chat.base.now log) : (chatSystem host).Path chat
      { chat with base := { chat.base with store := { chat.base.store with
        events := log.foldl EventLog.record chat.base.store.events } } } := by
  induction log generalizing chat with
  | nil => exact .refl
  | cons e log ih =>
      obtain ⟨noted, known, payload, same⟩ := notes e (List.mem_cons_self ..)
      have step : (chatSystem host).step chat (.note e.runId e.type payload)
          { chat with base := { chat.base with
            store := chat.base.store.event e.runId e.type (.record payload) chat.base.now } } :=
        ⟨noted, known, rfl⟩
      have rest := ih { chat with base := { chat.base with
        store := chat.base.store.event e.runId e.type (.record payload) chat.base.now } }
        fun e' he' => notes e' (List.mem_cons_of_mem _ he')
      rw [List.foldl_cons, same]
      exact (System.Path.refl.tail step).trans rest

/-- A step is one of the others, or notes events and leaves the rest to them. -/
theorem Step.path {a : SelectionAction} (step : w.Step host m a w') :
    (chatSystem host).Path w.chat w'.chat := by
  cases a with
  | chat a =>
      obtain ⟨-, chat, order, tables, finished, step, -, -, -, -, rfl⟩ := step
      exact .tail .refl step
  | select owner rid request validate identity =>
      obtain ⟨-, tables, log, hselect, rfl⟩ := step
      exact notes_path _ (ModelSelection.select_notes hselect)
  | bind id view =>
      obtain ⟨task, candidate, -, -, bound, tables, log, hbind, rfl⟩ := step
      split
      · exact notes_path _ (ModelSelection.bind_notes hbind)
      · exact notes_path _ (ModelSelection.bind_notes hbind)
  | reject id code =>
      obtain ⟨task, candidate, -, -, tables, log, hreject, rfl⟩ := step
      exact notes_path _ (ModelSelection.reject_notes hreject)
  | call id ctx messages step =>
      obtain ⟨-, rfl⟩ := step
      exact .refl
  | lookup id =>
      obtain ⟨task, -, -, -, binding, -, rfl⟩ := step
      exact .refl
  | candidate id =>
      obtain ⟨task, -, -, candidate, -, rfl⟩ := step
      exact .refl
  | crash id =>
      cases step
      exact .refl

/-- The runs of the selection are runs of the scheduler with its events and messages. -/
theorem chat_reachable (h : (selectionSystem host m).Reachable w) :
    (chatSystem host).Reachable w.chat := by
  induction h with
  | init start => exact .init start.1
  | step _ step ih => exact ih.path (Step.path step)

end SelectionWorld

/-- Model selection: a logical call is bound once and for all, to the profile that its run desires at
the revision of the binding and with no newer command accepted; the run uses the profile of its last
binding; at most one command of a run is requested, and none of a run that has ended. -/
theorem model_selection (h : (selectionSystem host m).Reachable w) :
    (∀ w', (selectionSystem host m).Path w w' → ∀ call b,
      w.tables.bindings.get? call = some b → w'.tables.bindings.get? call = some b) ∧
    (∀ call b, w.tables.bindings.get? call = some b → b.runId = call.runId ∧
      ∃ run, w.store.runs.get? b.runId = some run ∧ ∀ ref,
        w.tables.Desired (m.profileRef run.snapshotId) b.runId b.controlRevision ref ↔
          ref = b.profileRef) ∧
    (∀ a w', (selectionSystem host m).step w a w' → ∀ call b, w.tables.bindings.get? call = none →
      w'.tables.bindings.get? call = some b →
      ModelSelection.Binds m w.store.runs w.tables w'.tables b) ∧
    (∀ rid c, ModelSelection.control m w.store w.tables rid = .ok c →
      ∃ run, w.store.runs.get? rid = some run ∧ c.effectiveProfileRef =
        ((w.tables.bindingsOf rid).getLast?.map ModelCallBinding.profileRef).getD
          (m.profileRef run.snapshotId)) ∧
    (∀ rid id id' command command', w.tables.Command rid id command →
      w.tables.Command rid id' command' → command.status = .requested →
      command'.status = .requested → id = id') ∧
    (∀ rid id command, w.store.Ended rid → w.tables.Command rid id command →
      command.status ≠ .requested) := by
  have sound := SelectionWorld.sound h
  refine ⟨fun w' path call b saved => ?_, fun call b saved => ?_, fun a w' step call b absent saved => ?_,
    fun rid c hcontrol => ?_, fun rid id id' command command' own own' requested requested' => ?_,
    fun rid id command ended own requested => ?_⟩
  · exact path.stable (P := fun w => w.tables.bindings.get? call = some b)
      (fun w a w' reach saved step =>
        SelectionWorld.Step.bound (SelectionWorld.sound reach) step saved) h saved
  · obtain ⟨named, own, run, hrun⟩ := sound.tables.bindings call b saved
    have bound := (sound.tables.served b.runId run hrun).bound b
      (List.mem_map.mpr ⟨(call, b), Table.mem_select.mpr ⟨saved, decide_eq_true rfl⟩, rfl⟩)
    refine ⟨own, run, hrun, fun ref => ⟨fun desired => ?_, fun same => same ▸ bound⟩⟩
    exact (sound.tables.commanded b.runId run hrun).unique desired bound
  · rcases SelectionWorld.Step.binds sound step with same | ⟨b', binds⟩
    · rw [same, absent] at saved
      cases saved
    · have read := (Table.insert?_eq_some binds.insert).2 call
      rw [saved, absent] at read
      split at read
      · cases read
        exact binds
      · cases read
  · obtain ⟨run, hrun, rfl⟩ := ModelSelection.control_eq_ok.mp hcontrol
    exact ⟨run, hrun, (sound.tables.served rid run hrun).effective⟩
  · obtain ⟨run, hrun⟩ := sound.tables.commands id command own.1
    rw [own.2] at hrun
    have commanded := sound.tables.commanded rid run hrun
    have named := (commanded.requested id command own requested).1
    have named' := (commanded.requested id' command' own' requested').1
    exact Option.some.inj (named.symm.trans named')
  · obtain ⟨run, hrun⟩ := sound.tables.commands id command own.1
    rw [own.2] at hrun
    obtain ⟨named, asked⟩ := (sound.tables.commanded rid run hrun).requested id command own requested
    -- a control that names a command is saved
    cases saved : w.tables.controls.get? rid with
    | none =>
        rw [ModelTables.controlOf, saved] at named
        cases named
    | some c =>
        rw [ModelTables.controlOf, saved] at asked
        exact sound.quiet rid c saved ended asked

/-! ## A run whose model is changed -/

namespace SelectionWorld

theorem mem_entries {new : List Entry} (log : EventLog) {e : Entry} (h : e ∈ new) :
    ∃ e' ∈ (new.foldl EventLog.record log).entries, e'.type = e.type := by
  induction new generalizing log with
  | nil => cases h
  | cons e' new ih =>
      rcases List.mem_cons.mp h with rfl | h
      · have kept : ∀ (new : List Entry) (log : EventLog), ∀ e ∈ log.entries,
            e ∈ (new.foldl EventLog.record log).entries := by
          intro new
          induction new with
          | nil => exact fun _ _ he => he
          | cons e' new ih => exact fun log e he => ih _ e (List.mem_append_left _ he)
        exact ⟨_, kept new _ _ (List.mem_append_right _ (List.mem_singleton_self _)), rfl⟩
      · exact ih _ h

/-- A transaction in which no run ends is one of the system. -/
theorem Step.quiet {a : ChatAction} {chat : ChatWorld} (other : a.selects = false)
    (step : w.chat.Step host a chat) (live : ∀ rid, ¬chat.base.store.Ended rid)
    (silent : a.log.filter (fun e => e.type = .modelSelectionNotApplied) = []) :
    (selectionSystem host m).step w (.chat a) { w with chat } := by
  refine ⟨other, chat, [], w.tables, [], step, List.nodup_nil, fun rid => ?_, rfl, silent, rfl⟩
  exact ⟨fun h => absurd h List.not_mem_nil, fun ended => absurd ended.1 (live rid)⟩

theorem Step.own {a : Action} {base : World} (other : a.submits = false)
    (h : World.next host w.chat.base a = some base) (live : ∀ rid, ¬base.store.Ended rid)
    (silent : ∀ e ∈ base.store.events.entries, e.type ≠ .modelSelectionNotApplied) :
    ∃ log, (selectionSystem host m).step w (.chat (.base a log))
      { w with chat := { w.chat with base } } := by
  obtain ⟨log, step⟩ := ChatWorld.Step.own (w := w.chat) other h
  refine ⟨log, Step.quiet rfl step live ?_⟩
  obtain ⟨-, _, _, -, -, -, hlog⟩ := step
  have events : base.store.events = log.foldl EventLog.record w.chat.base.store.events :=
    congrArg (fun w : ChatWorld => w.base.store.events) hlog
  show log.filter _ = []
  rw [List.filter_eq_nil_iff]
  intro e he
  obtain ⟨e', he', same⟩ := mem_entries w.chat.base.store.events he
  rw [← events] at he'
  simpa [same] using silent e' he'

end SelectionWorld

theorem Store.live_of_any (h : s.runs.any (fun _ r => r.status.terminal) = false) (rid : RunId) :
    ¬s.Ended rid := by
  rintro ⟨run, hrun, ended⟩
  cases ended.symm.trans (Table.any_eq_false.mp h rid run hrun)

namespace Sample

/-- Switching is on, and every snapshot names the first profile. -/
def models : Models where
  hotModelSelection := true
  profileRef _ := "first@1"
  original _ _ := .ok { modelProfileRef := some "first@1" }
  hasImages _ := false
  encode c := c.desiredProfileRef
  encodeCommand _ := "command"

/-- The worker of the run. -/
def caller : ExecutionContext :=
  ⟨1, 1, 1, 1, 10, 10, none, 20, 1, 5, 2, 1, some 1000000⟩

/-- The user has selected the second profile by command `30`. -/
def preferred : ModelTables × List Entry :=
  (ModelSelection.select models claimed.store posted.1 {} 1 10 ⟨"second@1", 0, false, none⟩
    (fun _ _ => .ok ()) 30 claimed.now).toOption.get (by decide +kernel)

def preferredWorld : SelectionWorld :=
  (SelectionWorld.mk ⟨claimed, posted.1⟩ {} .empty).commit preferred.1 preferred.2

/-- The first call of the run. -/
def calling : LogicalCall := ModelSelection.logicalId caller "messages" 0

/-- What the call is prepared for. -/
def chosen : ModelCallBinding :=
  { logicalCallId := calling, runId := 10, controlRevision := 1, profileRef := "second@1" }

/-- A task of the worker for the call. -/
def asking (state : Preparation) : ModelTask :=
  { ctx := caller, logicalCallId := calling, state }

def callingWorld : SelectionWorld := preferredWorld.setTask 1 (asking .begun)

def unboundWorld : SelectionWorld := callingWorld.setTask 1 (asking .unbound)

def preparedWorld : SelectionWorld := unboundWorld.setTask 1 (asking (.prepared chosen))

/-- The call has been bound with input `40`. -/
def bounded : Option ModelCallBinding × ModelTables × List Entry :=
  (ModelSelection.bind models preferredWorld.store preferredWorld.tables caller chosen 40
    preferredWorld.now).toOption.get (by decide +kernel)

end Sample

/-- The call of a run whose user has selected another profile. -/
theorem model_selection_second : ∃ w w' : SelectionWorld,
    (selectionSystem Sample.host Sample.models).Reachable w ∧
    (selectionSystem Sample.host Sample.models).step w (.bind 1 40) w' ∧
    ∃ b, w.tables.bindings.get? Sample.calling = none ∧
      w'.tables.bindings.get? Sample.calling = some b ∧ b.profileRef = "second@1" ∧
      ModelSelection.Binds Sample.models w.store.runs w.tables w'.tables b := by
  have branch : World.next Sample.host Sample.start
      (.addBranch 1 { sessionId := 1, graphThreadKey := 5 }) = some Sample.branched :=
    (Option.some_get _).symm
  have post : submitMessage Sample.branched.store .empty 1 1 ⟨1, 1, 1, 1, "goal", ∅, 1000000⟩ 10 7
      "goal" Sample.branched.now = .ok Sample.posted := toOption_get _
  have claim : World.next Sample.host { Sample.branched with store := Sample.posted.2 }
      (.claim ⟨1, 1⟩ 20) = some Sample.claimed := (Option.some_get _).symm
  have prefer : ModelSelection.select Sample.models Sample.claimed.store Sample.posted.1 {} 1 10
      ⟨"second@1", 0, false, none⟩ (fun _ _ => .ok ()) 30 Sample.claimed.now =
        .ok Sample.preferred := toOption_get _
  have look : ModelSelection.lookup Sample.preferredWorld.store Sample.preferredWorld.tables
      Sample.caller Sample.calling Sample.preferredWorld.now = .ok none :=
    toOption_eq_some.mp (by decide +kernel)
  have choose : ModelSelection.fromControl Sample.models Sample.preferredWorld.store
      Sample.preferredWorld.tables Sample.caller Sample.calling = .ok Sample.chosen :=
    toOption_eq_some.mp (by decide +kernel)
  have bind : ModelSelection.bind Sample.models Sample.preferredWorld.store
      Sample.preferredWorld.tables Sample.caller Sample.chosen 40 Sample.preferredWorld.now =
        .ok Sample.bounded := toOption_get _
  -- the run is submitted and claimed
  have start : (selectionSystem Sample.host Sample.models).Reachable
      ⟨⟨Sample.start, .empty⟩, {}, .empty⟩ := .init ⟨⟨rfl, rfl⟩, rfl, rfl⟩
  obtain ⟨_, branched⟩ := SelectionWorld.Step.own (m := Sample.models)
    (w := ⟨⟨Sample.start, .empty⟩, {}, .empty⟩) rfl branch
    (Store.live_of_any (by decide +kernel)) (by decide +kernel)
  have posted := (start.step branched).step (SelectionWorld.Step.quiet
    (a := .submit 1 1 ⟨1, 1, 1, 1, "goal", ∅, 1000000⟩ 10 7 "goal") rfl ⟨_, _, post, rfl⟩
    (Store.live_of_any (by decide +kernel)) rfl)
  obtain ⟨_, claimed⟩ := SelectionWorld.Step.own (m := Sample.models)
    (w := ⟨⟨{ Sample.branched with store := Sample.posted.2 }, Sample.posted.1⟩, {}, .empty⟩) rfl claim
    (Store.live_of_any (by decide +kernel)) (by decide +kernel)
  -- the user selects, and the worker prepares its call
  have preferred : (selectionSystem Sample.host Sample.models).Reachable Sample.preferredWorld :=
    (posted.step claimed).step
      (a := .select 1 10 ⟨"second@1", 0, false, none⟩ (fun _ _ => .ok ()) 30)
      ⟨rfl, _, _, prefer, rfl⟩
  have called : (selectionSystem Sample.host Sample.models).Reachable Sample.callingWorld :=
    preferred.step (a := .call 1 Sample.caller "messages" 0) ⟨rfl, rfl⟩
  have looked : (selectionSystem Sample.host Sample.models).Reachable Sample.unboundWorld :=
    called.step (a := .lookup 1) ⟨Sample.asking .begun, rfl, rfl, by decide, none, look, rfl⟩
  have prepared : (selectionSystem Sample.host Sample.models).Reachable Sample.preparedWorld :=
    looked.step (a := .candidate 1) ⟨Sample.asking .unbound, rfl, rfl, Sample.chosen, choose, rfl⟩
  have bound : (selectionSystem Sample.host Sample.models).step Sample.preparedWorld (.bind 1 40)
      ((Sample.preparedWorld.commit Sample.bounded.2.1 Sample.bounded.2.2).endTask 1) :=
    ⟨Sample.asking (.prepared Sample.chosen), Sample.chosen, rfl, rfl, Sample.bounded.1,
      Sample.bounded.2.1, Sample.bounded.2.2, bind, (if_pos (by decide +kernel)).symm⟩
  refine ⟨_, _, prepared, bound, ?_⟩
  obtain ⟨b, saved, profile⟩ : ∃ b, Sample.bounded.2.1.bindings.get? Sample.calling = some b ∧
      b.profileRef = "second@1" := Option.map_eq_some_iff.mp (by decide +kernel)
  obtain ⟨-, -, binds, -⟩ := model_selection prepared
  exact ⟨b, rfl, saved, profile, binds _ _ bound Sample.calling b rfl saved⟩

end MiHarness

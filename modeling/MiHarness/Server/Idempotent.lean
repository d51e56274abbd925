import MiHarness.Server.Commands

/-!
# Commands are idempotent

`Accounted` says what the record of a command, its coroutines and its past have to do with one
another: the transactions committed for it are the first `n`, each once; a coroutine that still runs
has committed all of them and is alone; and a successful reply is what the record holds.  A step is
`Quiet` for a command when it only ends coroutines of it or refuses requests.  What is not quiet is
the first request, a repeated reply, and a coroutine that goes on or ends.
-/

namespace MiHarness

open Library

variable {σ : Type}

namespace CommandEvent

def key : CommandEvent → CommandKey
  | .committed k _ _ => k
  | .replied k _ => k

def turn? : CommandEvent → Option Nat
  | .committed _ _ turn => some turn
  | .replied _ _ => none

end CommandEvent

namespace CommandWorld

variable {w w' : CommandWorld σ} {k k' : CommandKey} {n : Nat}

/-- The transactions of a command that have been committed, in order. -/
def turns (w : CommandWorld σ) (k : CommandKey) : List Nat :=
  ((w.events.filter fun e => e.key = k).filterMap CommandEvent.turn?).reverse

/-- What the record, the coroutines and the past of a command say of one another, when `n` of its
transactions have been committed. -/
structure Accounted (w : CommandWorld σ) (k : CommandKey) (n : Nat) : Prop where
  turns : w.turns k = List.range n
  unrecorded : w.commands.get? k = none → n = 0 ∧ ∀ p, w.tasks.get? (p, k) = none
  body : ∀ digest turn, .committed k digest turn ∈ w.events →
    ∃ saved, w.commands.get? k = some saved ∧ saved.bodyHash = digest
  task : ∀ p task, w.tasks.get? (p, k) = some task → task.committed = n ∧
    ∃ saved, w.commands.get? k = some saved ∧ saved.bodyHash = task.bodyHash ∧
      saved.statusCode = 102
  alone : ∀ p p' task task', w.tasks.get? (p, k) = some task →
    w.tasks.get? (p', k) = some task' → p = p'
  replied : ∀ result, .replied k (.ok result) ∈ w.events →
    (∀ p, w.tasks.get? (p, k) = none) ∧
      ∃ saved, w.commands.get? k = some saved ∧ saved.response = result

/-- What leaves the account of a command as it is: its coroutines may end, and it may be refused. -/
structure Quiet (w w' : CommandWorld σ) (k : CommandKey) : Prop where
  turns : w'.turns k = w.turns k
  committed : ∀ digest turn, .committed k digest turn ∈ w'.events →
    .committed k digest turn ∈ w.events
  replied : ∀ result, .replied k (.ok result) ∈ w'.events → .replied k (.ok result) ∈ w.events
  commands : w'.commands.get? k = w.commands.get? k
  tasks : ∀ p, w'.tasks.get? (p, k) = w.tasks.get? (p, k) ∨ w'.tasks.get? (p, k) = none

theorem Accounted.quiet (account : w.Accounted k n) (quiet : w.Quiet w' k) : w'.Accounted k n := by
  have earlier : ∀ p task, w'.tasks.get? (p, k) = some task → w.tasks.get? (p, k) = some task := by
    intro p task h
    rcases quiet.tasks p with same | gone
    · exact same ▸ h
    · cases gone.symm.trans h
  have idle : ∀ p, w.tasks.get? (p, k) = none → w'.tasks.get? (p, k) = none := by
    intro p h
    rcases quiet.tasks p with same | gone
    · exact same.trans h
    · exact gone
  refine ⟨quiet.turns.trans account.turns, fun h => ?_, fun digest turn h => ?_,
    fun p task h => ?_, fun p p' task task' h h' => ?_, fun result h => ?_⟩
  · obtain ⟨none, free⟩ := account.unrecorded (quiet.commands ▸ h)
    exact ⟨none, fun p => idle p (free p)⟩
  · rw [quiet.commands]
    exact account.body digest turn (quiet.committed digest turn h)
  · rw [quiet.commands]
    exact account.task p task (earlier p task h)
  · exact account.alone p p' task task' (earlier p task h) (earlier p' task' h')
  · obtain ⟨free, saved⟩ := account.replied result (quiet.replied result h)
    rw [quiet.commands]
    exact ⟨fun p => idle p (free p), saved⟩

theorem turns_append (new : List CommandEvent) (h : w'.events = new ++ w.events) :
    w'.turns k = w.turns k ++
      ((new.filter fun e => e.key = k).filterMap CommandEvent.turn?).reverse := by
  simp [turns, h]

/-- Refusals and the events of other commands are quiet. -/
theorem quiet_of_events (new : List CommandEvent) (events : w'.events = new ++ w.events)
    (silent : ∀ e ∈ new, e.key ≠ k ∨ ∃ error, e = .replied k (.error error))
    (commands : w'.commands.get? k = w.commands.get? k)
    (tasks : ∀ p, w'.tasks.get? (p, k) = w.tasks.get? (p, k) ∨ w'.tasks.get? (p, k) = none) :
    w.Quiet w' k := by
  have turnless : (new.filter fun e => e.key = k).filterMap CommandEvent.turn? = [] := by
    rw [List.filterMap_eq_nil_iff]
    intro e he
    obtain ⟨he, same⟩ := List.mem_filter.mp he
    rcases silent e he with other | ⟨error, rfl⟩
    · exact absurd (of_decide_eq_true same) other
    · rfl
  refine ⟨?_, fun digest turn h => ?_, fun result h => ?_, commands, tasks⟩
  · rw [turns_append new events, turnless, List.reverse_nil, List.append_nil]
  · rw [events] at h
    rcases List.mem_append.mp h with h | h
    · rcases silent _ h with other | ⟨error, e⟩
      · exact absurd rfl other
      · cases e
    · exact h
  · rw [events] at h
    rcases List.mem_append.mp h with h | h
    · rcases silent _ h with other | ⟨error, e⟩
      · exact absurd rfl other
      · cases e
    · exact h

theorem quiet_refused {error : CommandError} : w.Quiet (w.reply k' (.error error)) k := by
  refine quiet_of_events [.replied k' (.error error)] rfl (fun e he => ?_) rfl
    fun _ => .inl rfl
  obtain rfl := List.mem_singleton.mp he
  by_cases same : k' = k
  · exact .inr ⟨error, by rw [same]⟩
  · exact .inl same

/-! ## What a request does -/

theorem savedReply_eq_ok {processes : List ProcessId} {saved : ApiCommand} {digest : Hash}
    {result : JsonValue} (h : savedReply processes saved digest = .ok result) :
    saved.bodyHash = digest ∧ saved.statusCode ≠ 102 ∧ saved.response = result := by
  unfold savedReply at h
  split at h
  · cases h
  · rename_i same
    split at h
    · split at h <;> cases h
    · rename_i finished
      refine ⟨not_not.mp same, finished, ?_⟩
      split at h
      · split at h
        · cases h
        · exact Except.ok.inj h
      · exact Except.ok.inj h

theorem savedReply_conflict {saved : ApiCommand} {digest : Hash} (h : saved.bodyHash ≠ digest)
    (processes : List ProcessId) :
    savedReply processes saved digest = .error idempotencyConflict :=
  if_pos h

variable {maintenance : σ → Bool} {p : ProcessId} {digest : Hash} {callback : σ → Called σ}

theorem mutate_saved {saved : ApiCommand} (h : w.commands.get? k = some saved) :
    w.mutate maintenance p k digest callback =
      w.reply k (savedReply w.processes saved digest) := by
  rw [mutate, h]

/-- A new command is refused, finished or awaited. -/
theorem mutate_new (maintenance : σ → Bool) (p : ProcessId) (digest : Hash)
    (callback : σ → Called σ) (h : w.commands.get? k = none) :
    (∃ error, w.mutate maintenance p k digest callback = w.reply k (.error error)) ∨
    (∃ database result, callback w.database = .returned database result ∧
      w.mutate maintenance p k digest callback =
        reply { w with
          database
          commands := w.commands.put k ⟨digest, result, 200⟩
          events := .committed k digest 0 :: w.events } k (.ok result)) ∨
    ∃ database coroutine, callback w.database = .awaitable database coroutine ∧
      w.mutate maintenance p k digest callback =
        { w with
          database
          commands := w.commands.put k ⟨digest, pendingResponse p, 102⟩
          tasks := w.tasks.put (p, k) ⟨digest, coroutine, 1⟩
          events := .committed k digest 0 :: w.events } := by
  rw [mutate, h]
  dsimp only
  split
  · exact .inl ⟨_, rfl⟩
  · cases hcall : callback w.database with
    | raised raised => exact .inl ⟨_, rfl⟩
    | returned database result => exact .inr (.inl ⟨database, result, rfl, rfl⟩)
    | awaitable database coroutine => exact .inr (.inr ⟨database, coroutine, rfl, rfl⟩)

/-- A request is quiet for the other commands. -/
theorem quiet_mutate (other : k' ≠ k) :
    w.Quiet (w.mutate maintenance p k' digest callback) k := by
  cases hsaved : w.commands.get? k' with
  | some saved =>
      rw [mutate_saved hsaved]
      refine quiet_of_events [.replied k' _] rfl (fun e he => .inl ?_) rfl fun _ => .inl rfl
      obtain rfl := List.mem_singleton.mp he
      exact other
  | none =>
      rcases mutate_new maintenance p digest callback hsaved with ⟨error, h⟩ | ⟨database, result, -, h⟩ |
        ⟨database, coroutine, -, h⟩
      · rw [h]
        exact quiet_refused
      · rw [h]
        refine quiet_of_events [.replied k' _, .committed k' digest 0] rfl
          (fun e he => .inl ?_) ?_ fun _ => .inl rfl
        · rcases List.mem_cons.mp he with rfl | he
          · exact other
          · obtain rfl := List.mem_singleton.mp he
            exact other
        · exact (Table.get?_put ..).trans (if_neg other.symm)
      · rw [h]
        refine quiet_of_events [.committed k' digest 0] rfl (fun e he => .inl ?_) ?_
          fun p' => .inl ?_
        · obtain rfl := List.mem_singleton.mp he
          exact other
        · exact (Table.get?_put ..).trans (if_neg other.symm)
        · refine (Table.get?_put ..).trans (if_neg fun same => other ?_)
          exact (congrArg Prod.snd same).symm

/-- A request accounts for what it does. -/
theorem Accounted.mutate (account : w.Accounted k n) :
    ∃ n', (w.mutate maintenance p k' digest callback).Accounted k n' := by
  by_cases same : k' = k
  · subst same
    cases hsaved : w.commands.get? k' with
    | some saved =>
        rw [mutate_saved hsaved]
        refine ⟨n, ?_⟩
        cases hreply : savedReply w.processes saved digest with
        | error error => exact account.quiet quiet_refused
        | ok result =>
            obtain ⟨-, finished, response⟩ := savedReply_eq_ok hreply
            have idle : ∀ p, w.tasks.get? (p, k') = none := by
              intro p
              cases htask : w.tasks.get? (p, k') with
              | none => rfl
              | some task =>
                  obtain ⟨-, saved', hsaved', -, pending⟩ := account.task p task htask
                  cases hsaved.symm.trans hsaved'
                  exact absurd pending finished
            have turns : (w.reply k' (.ok result)).turns k' = w.turns k' := by
              rw [turns_append [.replied k' (.ok result)] rfl]
              simp [CommandEvent.key, List.filterMap_cons, CommandEvent.turn?]
            refine ⟨turns.trans account.turns, account.unrecorded, fun digest turn h => ?_,
              account.task, account.alone, fun result' h => ?_⟩
            · rcases List.mem_cons.mp h with e | h
              · cases e
              · exact account.body digest turn h
            · rcases List.mem_cons.mp h with e | h
              · cases e
                exact ⟨idle, saved, hsaved, response⟩
              · exact account.replied result' h
    | none =>
        obtain ⟨rfl, free⟩ := account.unrecorded hsaved
        have unanswered : ∀ result, .replied k' (.ok result) ∉ w.events := by
          intro result h
          obtain ⟨-, saved, recorded, -⟩ := account.replied result h
          cases hsaved.symm.trans recorded
        have uncommitted : ∀ digest turn, .committed k' digest turn ∉ w.events := by
          intro digest turn h
          obtain ⟨saved, recorded, -⟩ := account.body digest turn h
          cases hsaved.symm.trans recorded
        have recorded {saved : ApiCommand} : (w.commands.put k' saved).get? k' = some saved :=
          (Table.get?_put ..).trans (if_pos rfl)
        rcases mutate_new maintenance p digest callback hsaved with ⟨error, h⟩ | ⟨database, result, -, h⟩ |
          ⟨database, coroutine, -, h⟩
        · rw [h]
          exact ⟨0, account.quiet quiet_refused⟩
        · rw [h]
          refine ⟨1, ?_, fun absent => ?_, fun digest' turn committed => ?_, fun p' task htask => ?_,
            fun p' _ task _ htask => ?_, fun result' replied => ⟨free, ?_⟩⟩
          · rw [turns_append [.replied k' _, .committed k' digest 0] rfl, account.turns]
            simp [CommandEvent.key, List.filterMap_cons, CommandEvent.turn?]
          · cases recorded.symm.trans absent
          · rcases List.mem_cons.mp committed with e | committed
            · cases e
            · rcases List.mem_cons.mp committed with e | committed
              · cases e
                exact ⟨_, recorded, rfl⟩
              · exact absurd committed (uncommitted digest' turn)
          · cases (free p').symm.trans htask
          · cases (free p').symm.trans htask
          · rcases List.mem_cons.mp replied with e | replied
            · cases e
              exact ⟨_, recorded, rfl⟩
            · rcases List.mem_cons.mp replied with e | replied
              · cases e
              · exact absurd replied (unanswered result')
        · rw [h]
          have awaited : ∀ p' task, (w.tasks.put (p, k') ⟨digest, coroutine, 1⟩).get? (p', k') =
              some task → p' = p ∧ task = ⟨digest, coroutine, 1⟩ := by
            intro p' task htask
            rw [Table.get?_put] at htask
            split at htask
            · rename_i same
              exact ⟨congrArg Prod.fst same, (Option.some.inj htask).symm⟩
            · cases (free p').symm.trans htask
          refine ⟨1, ?_, fun absent => ?_, fun digest' turn committed => ?_, fun p' task htask => ?_,
            fun p₁ p₂ task₁ task₂ h₁ h₂ => ?_, fun result' replied => ?_⟩
          · rw [turns_append [.committed k' digest 0] rfl, account.turns]
            simp [CommandEvent.key, CommandEvent.turn?]
          · cases recorded.symm.trans absent
          · rcases List.mem_cons.mp committed with e | committed
            · cases e
              exact ⟨_, recorded, rfl⟩
            · exact absurd committed (uncommitted digest' turn)
          · obtain ⟨-, rfl⟩ := awaited p' task htask
            exact ⟨rfl, _, recorded, rfl, rfl⟩
          · exact (awaited p₁ task₁ h₁).1.trans (awaited p₂ task₂ h₂).1.symm
          · rcases List.mem_cons.mp replied with e | replied
            · cases e
            · exact absurd replied (unanswered result')
  · exact ⟨n, account.quiet (quiet_mutate same)⟩

/-! ## What a coroutine does -/

/-- The last step of a coroutine records its outcome and leaves no other coroutine of the command. -/
theorem Accounted.finish {task : CommandTask σ} {response : JsonValue} {status : ℚ}
    {answer : Except CommandError JsonValue} (account : w.Accounted k n)
    (running : w.tasks.get? (p, k) = some task) (answers : ∀ r, answer = .ok r → r = response) :
    (w.finish p k response status answer).Accounted k n := by
  obtain ⟨-, saved, recorded, body, -⟩ := account.task p task running
  have recorded' : (w.commands.modify k fun c => { c with response, statusCode := status }).get? k =
      some { saved with response, statusCode := status } := by
    rw [Table.get?_modify_self, recorded]
    rfl
  have free : ∀ p', (w.tasks.erase (p, k)).get? (p', k) = none := by
    intro p'
    rw [Table.get?_erase]
    split
    · rfl
    · rename_i other
      cases htask : w.tasks.get? (p', k) with
      | none => rfl
      | some task' =>
          refine absurd ?_ other
          rw [account.alone p' p task' task htask running]
  refine ⟨?_, fun absent => ?_, fun digest turn committed => ?_, fun p' task' htask => ?_,
    fun p₁ p₂ task₁ task₂ h₁ _ => ?_, fun result replied => ⟨free, _, recorded', ?_⟩⟩
  · refine (turns_append (w := w) [.replied k answer] rfl).trans ?_
    simp [account.turns, CommandEvent.key, CommandEvent.turn?]
  · cases recorded'.symm.trans absent
  · rcases List.mem_cons.mp committed with e | committed
    · cases e
    · obtain ⟨saved', earlier, same⟩ := account.body digest turn committed
      cases recorded.symm.trans earlier
      exact ⟨_, recorded', same⟩
  · cases (free p').symm.trans htask
  · cases (free p₁).symm.trans h₁
  · rcases List.mem_cons.mp replied with e | replied
    · obtain ⟨-, e⟩ := CommandEvent.replied.inj e
      exact (answers result e.symm).symm
    · cases running.symm.trans ((account.replied result replied).1 p)

/-- A coroutine accounts for what it does. -/
theorem Accounted.resume {task : CommandTask σ} (account : w.Accounted k n)
    (running : w.tasks.get? (p, k) = some task) : ∃ n', (w.resume p k task).Accounted k n' := by
  have ⟨committed, saved, recorded, body, pending⟩ := account.task p task running
  subst committed
  have unanswered : ∀ result, .replied k (.ok result) ∉ w.events := by
    intro result replied
    cases running.symm.trans ((account.replied result replied).1 p)
  unfold CommandWorld.resume
  cases task.coroutine with
  | turn change rest =>
      have running' : ∀ p' task', (w.tasks.put (p, k) { task with
          coroutine := rest w.database
          committed := task.committed + 1 }).get? (p', k) = some task' →
          p' = p ∧ task'.committed = task.committed + 1 ∧ task'.bodyHash = task.bodyHash := by
        intro p' task' htask
        rw [Table.get?_put] at htask
        split at htask
        · rename_i same
          cases htask
          exact ⟨congrArg Prod.fst same, rfl, rfl⟩
        · rename_i other
          refine absurd ?_ other
          rw [account.alone p' p task' task htask running]
      refine ⟨task.committed + 1, ?_, fun absent => ?_, fun digest turn committed => ?_,
        fun p' task' htask => ?_, fun p₁ p₂ task₁ task₂ h₁ h₂ => ?_, fun result replied => ?_⟩
      · rw [turns_append [.committed k task.bodyHash task.committed] rfl, account.turns,
          List.range_succ]
        simp [CommandEvent.key, CommandEvent.turn?]
      · cases recorded.symm.trans absent
      · rcases List.mem_cons.mp committed with e | committed
        · cases e
          exact ⟨saved, recorded, body⟩
        · exact account.body digest turn committed
      · obtain ⟨-, next, hash⟩ := running' p' task' htask
        exact ⟨next, saved, recorded, body.trans hash.symm, pending⟩
      · exact (running' p₁ task₁ h₁).1.trans (running' p₂ task₂ h₂).1.symm
      · rcases List.mem_cons.mp replied with e | replied
        · cases e
        · exact absurd replied (unanswered result)
  | returned result => exact ⟨_, account.finish running fun r h => (Except.ok.inj h).symm⟩
  | raised raised => exact ⟨_, account.finish running fun r h => by cases h⟩

theorem quiet_resume {task : CommandTask σ} (other : k' ≠ k) :
    w.Quiet (w.resume p k' task) k := by
  have elsewhere : ∀ p', (p', k) ≠ (p, k') := fun p' same => other (congrArg Prod.snd same).symm
  have gone : ∀ p', (w.tasks.erase (p, k')).get? (p', k) = w.tasks.get? (p', k) := by
    intro p'
    rw [Table.get?_erase, if_neg (elsewhere p')]
  unfold CommandWorld.resume
  cases task.coroutine with
  | turn change rest =>
      refine quiet_of_events [.committed k' _ _] rfl (fun e he => .inl ?_) rfl
        fun p' => .inl ?_
      · obtain rfl := List.mem_singleton.mp he
        exact other
      · exact (Table.get?_put ..).trans (if_neg (elsewhere p'))
  | returned result =>
      refine quiet_of_events [.replied k' _] rfl (fun e he => .inl ?_)
        (Table.get?_modify_ne _ _ other.symm) fun p' => .inl (gone p')
      obtain rfl := List.mem_singleton.mp he
      exact other
  | raised raised =>
      refine quiet_of_events [.replied k' _] rfl (fun e he => .inl ?_)
        (Table.get?_modify_ne _ _ other.symm) fun p' => .inl (gone p')
      obtain rfl := List.mem_singleton.mp he
      exact other

/-! ## Runs -/

/-- Every action accounts for what it does. -/
theorem Accounted.next (account : w.Accounted k n) {a : CommandAction σ}
    (h : w.next maintenance a = some w') : ∃ n', w'.Accounted k n' := by
  have silent {u : CommandWorld σ} (events : u.events = w.events)
      (commands : u.commands.get? k = w.commands.get? k)
      (tasks : ∀ p, u.tasks.get? (p, k) = w.tasks.get? (p, k) ∨ u.tasks.get? (p, k) = none) :
      ∃ n', u.Accounted k n' :=
    ⟨n, account.quiet (quiet_of_events [] events (fun _ he => absurd he List.not_mem_nil)
      commands tasks)⟩
  cases a with
  | request p k' digest callback =>
      simp only [CommandWorld.next] at h
      split at h
      · cases h
        exact account.mutate
      · cases h
  | resume p k' =>
      obtain ⟨task, running, rfl⟩ := Option.map_eq_some_iff.mp h
      by_cases same : k' = k
      · subst same
        exact account.resume running
      · exact ⟨n, account.quiet (quiet_resume same)⟩
  | cancel p k' =>
      cases h
      refine silent rfl rfl fun p' => ?_
      show (w.tasks.erase (p, k')).get? (p', k) = _ ∨ _
      rw [Table.get?_erase]
      split
      · exact .inr rfl
      · exact .inl rfl
  | start p =>
      cases h
      exact silent rfl rfl fun _ => .inl rfl
  | crash p =>
      cases h
      refine silent rfl rfl fun p' => ?_
      show (w.tasks.retain _).get? (p', k) = _ ∨ _
      rw [Table.get?_retain]
      split
      · exact .inl rfl
      · exact .inr rfl
  | other change =>
      cases h
      exact silent rfl rfl fun _ => .inl rfl

/-- A step that writes for a command commits the next of its transactions. -/
theorem next_writes {a : CommandAction σ} (accounted : ∀ k, ∃ n, w.Accounted k n)
    (h : w.next maintenance a = some w') : w'.database = w.database ∨
      (∃ change, a = .other change) ∨ ∃ k, w'.turns k = w.turns k ++ [(w.turns k).length] := by
  cases a with
  | request p k digest callback =>
      simp only [CommandWorld.next] at h
      split at h
      · cases h
        cases hsaved : w.commands.get? k with
        | some saved =>
            rw [mutate_saved hsaved]
            exact .inl rfl
        | none =>
            obtain ⟨n, account⟩ := accounted k
            obtain ⟨rfl, -⟩ := account.unrecorded hsaved
            have none : w.turns k = [] := account.turns
            rcases mutate_new maintenance p digest callback hsaved with ⟨error, h⟩ | ⟨database, result, -, h⟩ |
              ⟨database, coroutine, -, h⟩
            · rw [h]
              exact .inl rfl
            · refine .inr (.inr ⟨k, ?_⟩)
              rw [h, turns_append (w := w) [.replied k _, .committed k digest 0] rfl, none]
              simp [CommandEvent.key, List.filterMap_cons, CommandEvent.turn?]
            · refine .inr (.inr ⟨k, ?_⟩)
              rw [h, turns_append (w := w) [.committed k digest 0] rfl, none]
              simp [CommandEvent.key, CommandEvent.turn?]
      · cases h
  | resume p k =>
      obtain ⟨task, running, rfl⟩ := Option.map_eq_some_iff.mp h
      obtain ⟨n, account⟩ := accounted k
      obtain ⟨rfl, -⟩ := account.task p task running
      unfold CommandWorld.resume
      cases task.coroutine with
      | turn change rest =>
          refine .inr (.inr ⟨k, ?_⟩)
          rw [turns_append (w := w) [.committed k task.bodyHash task.committed] rfl,
            account.turns, List.length_range]
          simp [CommandEvent.key, CommandEvent.turn?]
      | returned result => exact .inl rfl
      | raised raised => exact .inl rfl
  | cancel p k =>
      cases h
      exact .inl rfl
  | start p =>
      cases h
      exact .inl rfl
  | crash p =>
      cases h
      exact .inl rfl
  | other change => exact .inr (.inl ⟨change, rfl⟩)

/-- A request whose callback raises changes no table. -/
theorem mutate_raised (maintenance : σ → Bool) (p : ProcessId) (k : CommandKey) (digest : Hash)
    {raised : Raised} (h : callback w.database = .raised raised) :
    ∃ answer, w.mutate maintenance p k digest callback = w.reply k answer := by
  cases hsaved : w.commands.get? k with
  | some saved => exact ⟨_, mutate_saved hsaved⟩
  | none =>
      rcases mutate_new maintenance p digest callback hsaved with ⟨error, same⟩ | ⟨_, _, other, -⟩ | ⟨_, _, other, -⟩
      · exact ⟨_, same⟩
      · cases h.symm.trans other
      · cases h.symm.trans other

/-- In every run a command is accounted for. -/
theorem reachable_accounted (h : (commandSystem maintenance).Reachable w) (k : CommandKey) :
    ∃ n, w.Accounted k n := by
  refine h.invariant (I := fun w => ∃ n, w.Accounted k n) (fun w start => ?_)
    fun w a w' _ ⟨n, account⟩ step => account.next step
  obtain ⟨commands, tasks, events⟩ := start
  have absent : w.commands.get? k = none := by rw [commands]; rfl
  have idle : ∀ p, w.tasks.get? (p, k) = none := fun p => by rw [tasks]; rfl
  refine ⟨0, ?_, fun _ => ⟨rfl, idle⟩, fun digest turn h => ?_, fun p task h => ?_,
    fun p _ task _ h => ?_, fun result h => ?_⟩
  · rw [turns, events]
    rfl
  · rw [events] at h
    cases h
  · cases (idle p).symm.trans h
  · cases (idle p).symm.trans h
  · rw [events] at h
    cases h

end CommandWorld

/-- In every run, whatever the callbacks do: the transactions of a command are committed each once
and in order, and nothing else is written for a command; all successful replies to a command are
the same; a request with another body than the one that was committed is refused and changes
nothing; and a request whose callback raises leaves the database and the records as they were. -/
theorem commands_idempotent (maintenance : σ → Bool) {w : CommandWorld σ}
    (h : (commandSystem maintenance).Reachable w) (k : CommandKey) :
    (∃ n, w.turns k = List.range n) ∧
    (∀ a w', w.next maintenance a = some w' → w'.database = w.database ∨
      (∃ change, a = .other change) ∨ ∃ k', w'.turns k' = w.turns k' ++ [(w.turns k').length]) ∧
    (∀ result result', .replied k (.ok result) ∈ w.events → .replied k (.ok result') ∈ w.events →
      result = result') ∧
    (∀ digest turn, .committed k digest turn ∈ w.events → ∀ p digest' callback w', digest ≠ digest' →
      w.next maintenance (.request p k digest' callback) = some w' →
      w' = w.reply k (.error idempotencyConflict)) ∧
    ∀ p digest callback raised w', callback w.database = .raised raised →
      w.next maintenance (.request p k digest callback) = some w' →
      w'.database = w.database ∧ w'.commands = w.commands ∧ w'.tasks = w.tasks := by
  obtain ⟨n, account⟩ := CommandWorld.reachable_accounted h k
  refine ⟨⟨n, account.turns⟩, fun a w' => CommandWorld.next_writes
    fun k' => CommandWorld.reachable_accounted h k', fun result result' hresult hresult' => ?_,
    fun digest turn committed p digest' callback w' other step => ?_,
    fun p digest callback raised w' raises step => ?_⟩
  · obtain ⟨-, saved, hsaved, rfl⟩ := account.replied result hresult
    obtain ⟨-, saved', hsaved', rfl⟩ := account.replied result' hresult'
    cases hsaved.symm.trans hsaved'
    rfl
  · obtain ⟨saved, hsaved, rfl⟩ := account.body digest turn committed
    simp only [CommandWorld.next] at step
    split at step
    · cases step
      rw [CommandWorld.mutate_saved hsaved, CommandWorld.savedReply_conflict other]
    · cases step
  · simp only [CommandWorld.next] at step
    split at step
    · cases step
      obtain ⟨answer, same⟩ := CommandWorld.mutate_raised maintenance p k digest raises
      rw [same]
      exact ⟨rfl, rfl, rfl⟩
    · cases step

namespace Sample

def server : ProcessId := ⟨7, 100⟩

def removal : CommandKey := ⟨"local", "DELETE", "/api/memories/m", "same"⟩

/-- A callback that writes, awaits and writes again. -/
def callback (n : Nat) : Called Nat :=
  .awaitable (n + 1) (.turn (· + 1) fun _ => .returned .null)

end Sample

/-- A command is retried after its coroutine has returned. -/
theorem commands_idempotent_retried : ∃ w : CommandWorld Nat, w.database = 2 ∧
    w.turns Sample.removal = [0, 1] ∧ (∃ n, w.turns Sample.removal = List.range n) ∧
    ∃ w', w.next (fun _ => false) (.request Sample.server Sample.removal "other" Sample.callback) =
      some w' ∧ w' = w.reply Sample.removal (.error idempotencyConflict) := by
  let request := CommandAction.request Sample.server Sample.removal "body" Sample.callback
  let resume : CommandAction Nat := .resume Sample.server Sample.removal
  obtain ⟨w, run, wrote, turns, committed, accepts⟩ : ∃ w : CommandWorld Nat,
      System.runs (CommandWorld.next fun _ => false) { database := 0 }
        [.start Sample.server, request, resume, resume, request] = some w ∧
      w.database = 2 ∧ w.turns Sample.removal = [0, 1] ∧
      .committed Sample.removal "body" 0 ∈ w.events ∧
      ∃ w', w.next (fun _ => false) (.request Sample.server Sample.removal "other" Sample.callback) =
        some w' :=
    ⟨_, rfl, rfl, by decide, .tail _ (.tail _ (.tail _ (.head _))), _, rfl⟩
  have start : (commandSystem fun _ => false).Reachable ({ database := 0 } : CommandWorld Nat) :=
    .init ⟨rfl, rfl, rfl⟩
  obtain ⟨w', step⟩ := accepts
  obtain ⟨once, -, -, conflict, -⟩ := commands_idempotent _ (start.runs run) Sample.removal
  exact ⟨w, wrote, turns, once, w', step, conflict "body" 0 committed Sample.server "other"
    Sample.callback w' (by decide) step⟩

end MiHarness

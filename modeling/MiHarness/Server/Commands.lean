import MiHarness.Core.Contracts
import MiHarness.Library.System
import MiHarness.Library.Table

/-!
# Idempotent commands

A command is identified by its owner, method, route and idempotency key.  `mutate` looks its record
up and runs the callback in one transaction.  A callback that returns a value is finished when that
transaction commits.  A callback that returns a coroutine commits a record that says so, under the
process that runs it, and the coroutine then writes in transactions of its own; its outcome replaces
the record at last.  While it runs, the process holds the lock of the command.

A process can die between any two steps, and a request can be cancelled at every `await`.  The body
of a command is known by its hash.
-/

namespace MiHarness

open Library

/-- The primary key of `api_commands`. -/
structure CommandKey where
  owner : String
  method : String
  route : String
  key : String
deriving DecidableEq, Repr

/-- A JSON value as Python reads it. -/
inductive JsonValue where
  | null
  | bool (b : Bool)
  | number (n : ℚ)
  | string (s : String)
  | array (items : List JsonValue)
  | object (fields : List (String × JsonValue))

/-- What a caller sees of a `HarnessError`. -/
structure CommandError where
  code : String
  message : String
  status : ℚ

/-- A row of `api_commands`. -/
structure ApiCommand where
  bodyHash : Hash
  response : JsonValue
  statusCode : ℚ

/-- An exception that a callback raises. -/
inductive Raised where
  | harness (error : CommandError)
  | other

/-- A coroutine: what it writes until it is suspended, and how it goes on. -/
inductive Coroutine (σ : Type) where
  | returned (result : JsonValue)
  | raised (error : Raised)
  | turn (change : σ → σ) (rest : σ → Coroutine σ)

/-- What a call of the callback does to the database. -/
inductive Called (σ : Type) where
  | returned (database : σ) (result : JsonValue)
  | awaitable (database : σ) (coroutine : Coroutine σ)
  | raised (error : Raised)

/-- A coroutine that is awaited, with the number of transactions its command has committed. -/
structure CommandTask (σ : Type) where
  bodyHash : Hash
  coroutine : Coroutine σ
  committed : Nat

/-- What has happened to a command. -/
inductive CommandEvent where
  /-- The `turn`th transaction of the callback has been committed, for a body. -/
  | committed (key : CommandKey) (bodyHash : Hash) (turn : Nat)
  | replied (key : CommandKey) (reply : Except CommandError JsonValue)

structure CommandWorld (σ : Type) where
  database : σ
  commands : Table CommandKey ApiCommand := .empty
  processes : List ProcessId := []
  /-- The awaited coroutines, each under the lock that its process holds. -/
  tasks : Table (ProcessId × CommandKey) (CommandTask σ) := .empty
  /-- The latest first. -/
  events : List CommandEvent := []

/-- The error that the caller sees, `unexpected` for what is no `HarnessError`. -/
def Raised.error (unexpected : CommandError) : Raised → CommandError
  | .harness error => error
  | .other => unexpected

/-! ## Replies -/

def idempotencyConflict : CommandError :=
  ⟨"IDEMPOTENCY_CONFLICT", "同一幂等键不能提交不同正文", 409⟩

def commandInterrupted : CommandError :=
  ⟨"COMMAND_INTERRUPTED", "原服务在命令完成前退出；请检查当前状态，再提交新命令", 409⟩

def commandInProgress : CommandError :=
  ⟨"COMMAND_IN_PROGRESS", "原命令仍在执行，请稍后查询", 409⟩

def commandFailed : CommandError := ⟨"COMMAND_FAILED", "命令执行失败，请查看诊断", 422⟩

def commandMaintenance : CommandError := ⟨"MAINTENANCE", "维护期间暂停配置修改", 503⟩

/-- What the server makes of another exception. -/
def internalError : CommandError := ⟨"INTERNAL_ERROR", "服务处理失败，请查看脱敏诊断", 500⟩

/-- The value of a key, `none` for a value that is no object. -/
def JsonValue.field? : JsonValue → String → Option JsonValue
  | .object fields, name => fields.lookup name
  | _, _ => none

/-- Whether Python takes the value for true. -/
def JsonValue.truthy : JsonValue → Bool
  | .null => false
  | .bool b => b
  | .number n => n ≠ 0
  | .string s => s ≠ ""
  | .array items => !items.isEmpty
  | .object fields => !fields.isEmpty

/-- The response of a command whose coroutine still runs. -/
def pendingResponse (p : ProcessId) : JsonValue :=
  .object [("pending", .bool true), ("pid", .number p.pid), ("process_start", .number p.processStart)]

/-- The process that a pending response names is running. -/
def originalAlive (processes : List ProcessId) (pending : JsonValue) : Bool :=
  match pending.field? "pid", pending.field? "process_start" with
  | some (.number pid), some (.number start) =>
      processes.any fun p => p.pid = pid && p.processStart = start
  | _, _ => false

/-- The response of a command whose coroutine has raised. -/
def errorResponse (error : CommandError) : JsonValue :=
  .object [("_error", .object [("code", .string error.code), ("message", .string error.message),
    ("status", .number error.status)])]

/-- The error that a stored `_error` is raised as.  Without its three fields it is a `KeyError` or
a `TypeError`. -/
def storedError (e : JsonValue) : CommandError :=
  match e.field? "code", e.field? "message", e.field? "status" with
  | some (.string code), some (.string message), some (.number status) => ⟨code, message, status⟩
  | _, _, _ => internalError

/-- What a request with a recorded command gets. -/
def savedReply (processes : List ProcessId) (saved : ApiCommand) (digest : Hash) :
    Except CommandError JsonValue :=
  if saved.bodyHash ≠ digest then .error idempotencyConflict
  else if saved.statusCode = 102 then
    if originalAlive processes saved.response then .error commandInProgress
    else .error commandInterrupted
  else
    match saved.response.field? "_error" with
    | some e => if e.truthy then .error (storedError e) else .ok saved.response
    | none => .ok saved.response

/-- The configuration routes, which maintenance closes. -/
def CommandKey.configures (k : CommandKey) : Bool :=
  "/api/config/".toList.isPrefixOf k.route.toList || k.route = "/api/workspaces"

namespace CommandWorld

variable {σ : Type}

def reply (w : CommandWorld σ) (k : CommandKey) (answer : Except CommandError JsonValue) :
    CommandWorld σ :=
  { w with events := .replied k answer :: w.events }

/-- The transaction of `Services.mutate`, up to the first `await`.  Without a reply the coroutine
is awaited. -/
def mutate (w : CommandWorld σ) (maintenance : σ → Bool) (p : ProcessId) (k : CommandKey)
    (digest : Hash) (callback : σ → Called σ) : CommandWorld σ :=
  match w.commands.get? k with
  | some saved => w.reply k (savedReply w.processes saved digest)
  | none =>
      if maintenance w.database && k.configures then w.reply k (.error commandMaintenance)
      else
        match callback w.database with
        | .raised raised => w.reply k (.error (raised.error internalError))
        | .returned database result =>
            reply { w with
              database
              commands := w.commands.put k ⟨digest, result, 200⟩
              events := .committed k digest 0 :: w.events } k (.ok result)
        | .awaitable database coroutine =>
            { w with
              database
              commands := w.commands.put k ⟨digest, pendingResponse p, 102⟩
              tasks := w.tasks.put (p, k) ⟨digest, coroutine, 1⟩
              events := .committed k digest 0 :: w.events }

/-- `Store.complete_api_command`. -/
def completeApiCommand (w : CommandWorld σ) (k : CommandKey) (response : JsonValue) (status : ℚ) :
    CommandWorld σ :=
  { w with commands := w.commands.modify k fun c => { c with response, statusCode := status } }

/-- The outcome of a coroutine is recorded and replied, and the lock is released. -/
def finish (w : CommandWorld σ) (p : ProcessId) (k : CommandKey) (response : JsonValue) (status : ℚ)
    (answer : Except CommandError JsonValue) : CommandWorld σ :=
  reply { w.completeApiCommand k response status with tasks := w.tasks.erase (p, k) } k answer

/-- The coroutine of a command runs to where it is next suspended, or its outcome is recorded and
replied. -/
def resume (w : CommandWorld σ) (p : ProcessId) (k : CommandKey) (task : CommandTask σ) :
    CommandWorld σ :=
  match task.coroutine with
  | .turn change rest =>
      { w with
        database := change w.database
        tasks := w.tasks.put (p, k) { task with
          coroutine := rest w.database
          committed := task.committed + 1 }
        events := .committed k task.bodyHash task.committed :: w.events }
  | .returned result => w.finish p k result 200 (.ok result)
  | .raised raised =>
      let error := raised.error commandFailed
      w.finish p k (errorResponse error) error.status (.error error)

end CommandWorld

/-! ## Runs -/

inductive CommandAction (σ : Type) where
  | request (p : ProcessId) (k : CommandKey) (digest : Hash) (callback : σ → Called σ)
  /-- The coroutine of a command goes on. -/
  | resume (p : ProcessId) (k : CommandKey)
  /-- The request of a command is cancelled while its coroutine is awaited. -/
  | cancel (p : ProcessId) (k : CommandKey)
  | start (p : ProcessId)
  | crash (p : ProcessId)
  /-- A transaction that belongs to no command. -/
  | other (change : σ → σ)

variable {σ : Type}

/-- What an action does.  A request waits while its process holds the lock of the command. -/
def CommandWorld.next (maintenance : σ → Bool) (w : CommandWorld σ) :
    CommandAction σ → Option (CommandWorld σ)
  | .request p k digest callback =>
      if p ∈ w.processes ∧ w.tasks.get? (p, k) = none then
        some (w.mutate maintenance p k digest callback)
      else none
  | .resume p k => (w.tasks.get? (p, k)).map (w.resume p k)
  | .cancel p k => some { w with tasks := w.tasks.erase (p, k) }
  | .start p => some { w with processes := p :: w.processes }
  | .crash p =>
      some { w with
        processes := w.processes.filter (· ≠ p)
        tasks := w.tasks.retain fun lock => lock.1 ≠ p }
  | .other change => some { w with database := change w.database }

/-- The commands of a fresh installation. -/
def commandSystem (maintenance : σ → Bool) : System (CommandWorld σ) (CommandAction σ) :=
  .ofNext (fun w => w.commands = .empty ∧ w.tasks = .empty ∧ w.events = [])
    (CommandWorld.next maintenance)

end MiHarness

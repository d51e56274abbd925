import MiHarness.Gateway.Assembler
import MiHarness.Library.System
import MiHarness.Storage.Budget

/-!
# Attempts of a model call

A call of the gateway makes attempts until one returns a turn.  Each attempt takes a permit and a
reservation in one transaction, says that it has started, asks the provider inside a `try`, and settles
the reservation in its `finally`, which also gives the permit back.  What may raise, or be cancelled, is
an argument of a step.

Calls of all processes run at the same time and share the ledger and the permits.  A permit counts while
its process is alive.
-/

namespace MiHarness

open Library

abbrev AttemptKey := Nat
abbrev ModelCallId := Nat

/-- A record of `model_permits`. -/
structure ModelPermit where
  process : ProcessId
  accountId : RunId
  released : Bool := false
deriving DecidableEq

/-- What `reserve` returns. -/
structure ModelReservation where
  attempt : AttemptKey
  accountId : RunId
  amount : Amount
deriving DecidableEq

structure CostedUsage extends Usage where
  cost : Option Rat := none
deriving DecidableEq

/-- Where a call stands. -/
inductive ModelPhase where
  /-- Before the checks of an attempt, or waiting for a permit. -/
  | checking
  /-- The attempt has its reservation, and is about to say that it has started. -/
  | reserved (r : ModelReservation)
  /-- Inside the `try`. -/
  | trying (r : ModelReservation)
  /-- In the `finally`, with the usage that is known; `again` when another attempt follows. -/
  | settling (r : ModelReservation) (usage : CostedUsage) (again : Bool)
  /-- Between two attempts. -/
  | pausing
  /-- The call has returned or raised. -/
  | ended
deriving DecidableEq

structure ModelCall where
  process : ProcessId
  attemptIndex : Nat := 0
  phase : ModelPhase := .checking
  /-- The attempts that have got a reservation, the latest first. -/
  made : List AttemptKey := []
  /-- The attempts for which `settle` has been called, the latest first. -/
  settled : List AttemptKey := []
deriving DecidableEq

structure ModelWorld where
  ledger : Ledger
  permits : Table AttemptKey ModelPermit := .empty
  /-- The processes that run. -/
  processes : List ProcessId := []
  calls : Table ModelCallId ModelCall := .empty

/-- How the `try` of an attempt ends, with the usage that is known by then. -/
inductive TryOutcome where
  | returned (usage : CostedUsage)
  /-- An `Exception`; `reported` when saying so has not raised in its turn. -/
  | raised (usage : CostedUsage) (retryable reported : Bool)
  | cancelled (usage : CostedUsage)

def TryOutcome.usage : TryOutcome → CostedUsage
  | .returned usage | .raised usage _ _ | .cancelled usage => usage

/-- Whether the loop goes on after the `finally`. -/
def TryOutcome.again (maxAttempts attemptIndex : Nat) : TryOutcome → Bool
  | .raised _ retryable reported => retryable && reported && attemptIndex + 1 < maxAttempts
  | _ => false

/-- `_live`. -/
def ModelWorld.live (w : ModelWorld) (permit : ModelPermit) : Bool :=
  !permit.released && w.processes.contains permit.process

def ModelWorld.active (w : ModelWorld) : Nat :=
  (w.permits.select fun _ permit => w.live permit).length

/-- What an attempt reserves, `none` when a limit of costs meets a model without prices. -/
def modelAmount (account : Account) (inputTokens outputTokens : Nat) (prices : Option (Rat × Rat)) :
    Option Items :=
  let tokens : Rat := (inputTokens + outputTokens : ℕ)
  if (account.limits.lookup .cost).isSome then
    prices.map fun price =>
      let cost : Rat := (inputTokens * price.1 + outputTokens * price.2) / 1000000
      List.toAList [⟨.modelCalls, 1⟩, ⟨.totalTokens, tokens⟩, ⟨.cost, cost⟩]
  else some (List.toAList [⟨.modelCalls, 1⟩, ⟨.totalTokens, tokens⟩])

/-- What `settle` of the adapter makes of the usage; `none` is recorded as unknown. -/
def CostedUsage.actual (usage : CostedUsage) (amount : Amount) : Option Amount :=
  if usage.source = .provider then
    usage.totalTokens.bind fun tokens =>
      let actual := (Amount.single .modelCalls 1).insert .totalTokens (tokens : Rat)
      if Dimension.cost ∈ amount then usage.cost.map (actual.insert .cost) else some actual
  else none

/-- The reservation of an attempt: its row in the ledger and its permit. -/
def ModelWorld.take (w : ModelWorld) (process : ProcessId) (attempt : AttemptKey) (account : RunId)
    (items : Items) : Except HarnessError ModelWorld := do
  let ledger ← w.ledger.reserve account (.model attempt) items
  .ok { w with
    ledger
    permits := w.permits.put attempt { process, accountId := account } }

inductive ModelStep where
  | spawn (p : ProcessId)
  | die (p : ProcessId)
  | begin (c : ModelCallId) (p : ProcessId)
  /-- A check raises, or the call is cancelled, where it holds nothing. -/
  | leave (c : ModelCallId)
  /-- The transaction of `reserve`; without a free permit the call goes on waiting. -/
  | reserve (c : ModelCallId) (attempt : AttemptKey) (account : RunId)
      (inputTokens outputTokens : Nat) (prices : Option (Rat × Rat))
  /-- `model.attempt.started`, and whether the sink has taken it. -/
  | started (c : ModelCallId) (taken : Bool)
  | tried (c : ModelCallId) (outcome : TryOutcome)
  | settle (c : ModelCallId)
  | resume (c : ModelCallId)
  /-- Another use of the ledger. -/
  | ledger (ledger : Ledger)

/-- A call goes to its next phase. -/
def ModelWorld.moves (w : ModelWorld) (c : ModelCallId) (call : ModelCall) : ModelWorld :=
  { w with calls := w.calls.put c call }

/-- The call, if its process runs. -/
def ModelWorld.call? (w : ModelWorld) (c : ModelCallId) : Option ModelCall :=
  (w.calls.get? c).filter fun call => w.processes.contains call.process

/-- Another use of the ledger leaves the reservations of models alone, and no account is deleted. -/
def Ledger.KeepsModels (l l' : Ledger) : Prop :=
  (∀ a, l'.reservations.get? (.model a) = l.reservations.get? (.model a)) ∧
    ∀ id account, l.accounts.get? id = some account → ∃ account', l'.accounts.get? id = some account'

/-- One transaction of `reserve`. -/
def ModelWorld.reserveStep (concurrency : Nat) (w : ModelWorld) (c : ModelCallId)
    (call : ModelCall) (attempt : AttemptKey) (account : RunId) (inputTokens outputTokens : Nat)
    (prices : Option (Rat × Rat)) : ModelWorld :=
  if w.active < concurrency then
    match w.ledger.account account with
    | .error _ => w.moves c { call with phase := .ended }
    | .ok row =>
        match modelAmount row inputTokens outputTokens prices with
        | none => w.moves c { call with phase := .ended }
        | some items =>
            let r : ModelReservation := { attempt, accountId := account, amount := items.amount }
            match w.take call.process attempt account items with
            | .error _ => w.moves c { call with phase := .ended }
            | .ok w' => w'.moves c { call with phase := .reserved r, made := attempt :: call.made }
  else w

/-- `settle` of the adapter, in the `finally` of an attempt. -/
def ModelWorld.settleStep (w : ModelWorld) (c : ModelCallId) (call : ModelCall)
    (r : ModelReservation) (usage : CostedUsage) (again : Bool) : ModelWorld :=
  let settled := r.attempt :: call.settled
  let released := { w with permits := w.permits.erase r.attempt }
  match w.ledger.settle (.model r.attempt) (usage.actual r.amount) with
  | .error _ => released.moves c { call with phase := .ended, settled }
  | .ok ledger =>
      { released with ledger }.moves c
        { call with phase := if again then .pausing else .ended, settled }

/-- The steps of all calls.  The id of an attempt is a new one, and so is a process. -/
inductive ModelWorld.Next (maxAttempts concurrency : Nat) (w : ModelWorld) :
    ModelStep → ModelWorld → Prop where
  | spawn (p : ProcessId)
      (unused : ∀ a permit, w.permits.get? a = some permit → permit.process ≠ p)
      (new : ∀ c call, w.calls.get? c = some call → call.process ≠ p) :
      Next maxAttempts concurrency w (.spawn p) { w with processes := p :: w.processes }
  | die (p : ProcessId) :
      Next maxAttempts concurrency w (.die p) { w with processes := w.processes.filter (· ≠ p) }
  | begin (c : ModelCallId) (p : ProcessId) (runs : p ∈ w.processes) (new : w.calls.get? c = none) :
      Next maxAttempts concurrency w (.begin c p)
        (w.moves c { process := p, phase := if maxAttempts = 0 then .ended else .checking })
  | leave {c : ModelCallId} {call : ModelCall} (found : w.call? c = some call)
      (phase : call.phase = .checking ∨ call.phase = .pausing) :
      Next maxAttempts concurrency w (.leave c) (w.moves c { call with phase := .ended })
  | reserve {c : ModelCallId} {call : ModelCall} (attempt : AttemptKey) (account : RunId)
      (inputTokens outputTokens : Nat) (prices : Option (Rat × Rat)) (found : w.call? c = some call)
      (phase : call.phase = .checking)
      (new : w.ledger.reservations.get? (.model attempt) = none) :
      Next maxAttempts concurrency w (.reserve c attempt account inputTokens outputTokens prices)
        (w.reserveStep concurrency c call attempt account inputTokens outputTokens prices)
  | started {c : ModelCallId} {call : ModelCall} {r : ModelReservation} (taken : Bool)
      (found : w.call? c = some call) (phase : call.phase = .reserved r) :
      Next maxAttempts concurrency w (.started c taken)
        (w.moves c { call with phase := if taken then .trying r else .ended })
  | tried {c : ModelCallId} {call : ModelCall} {r : ModelReservation} (outcome : TryOutcome)
      (found : w.call? c = some call) (phase : call.phase = .trying r) :
      Next maxAttempts concurrency w (.tried c outcome)
        (w.moves c { call with
          phase := .settling r outcome.usage (outcome.again maxAttempts call.attemptIndex) })
  | settle {c : ModelCallId} {call : ModelCall} {r : ModelReservation} {usage : CostedUsage}
      {again : Bool} (found : w.call? c = some call) (phase : call.phase = .settling r usage again) :
      Next maxAttempts concurrency w (.settle c) (w.settleStep c call r usage again)
  | resume {c : ModelCallId} {call : ModelCall} (found : w.call? c = some call)
      (phase : call.phase = .pausing) :
      Next maxAttempts concurrency w (.resume c)
        (w.moves c { call with phase := .checking, attemptIndex := call.attemptIndex + 1 })
  | ledger (ledger : Ledger) (keeps : w.ledger.KeepsModels ledger) :
      Next maxAttempts concurrency w (.ledger ledger) { w with ledger }

/-- The gateways of all processes, from a database without permits. -/
def modelSystem (maxAttempts concurrency : Nat) : System ModelWorld ModelStep where
  init w := w.permits = .empty ∧ w.calls = .empty
  step w a w' := w.Next maxAttempts concurrency a w'

end MiHarness

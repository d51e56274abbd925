import MiHarness.Gateway.Attempts
import MiHarness.Storage.Conservation

/-!
# Permits and settlements

`attempts_paired` has two parts.  In every run the permits of live processes stay within the
concurrency, and a call makes no more attempts than it may.  In a run whose steps are all `Orderly`
every reservation is followed by one settlement, which gives the permit back and leaves the
reservation settled or unknown.

A step is not orderly when the sink refuses `model.attempt.started`, which is said between the
reservation and the `try`, and when the ledger refuses the usage that an attempt has reported.
-/

namespace MiHarness

open Library

/-! ## What is required -/

/-- The permit of an attempt is gone, and its reservation is settled or unknown. -/
structure ModelWorld.Settled (w : ModelWorld) (a : AttemptKey) : Prop where
  released : w.permits.get? a = none
  state : ∃ r, w.ledger.reservations.get? (.model a) = some r ∧ r.state ≠ .reserved

def ModelPhase.reservation? : ModelPhase → Option ModelReservation
  | .reserved r | .trying r | .settling r _ _ => some r
  | _ => none

/-- Each attempt that has a reservation has had one settlement, or is the one that the call is making. -/
structure ModelWorld.Pairs (w : ModelWorld) (call : ModelCall) : Prop where
  once : call.made.Nodup
  paired : call.made = call.phase.reservation?.toList.map ModelReservation.attempt ++ call.settled
  settled : ∀ a ∈ call.settled, w.Settled a

def ModelWorld.Paired (w : ModelWorld) : Prop :=
  ∀ c call, w.calls.get? c = some call → w.Pairs call

/-- The usage of an attempt is no more than what it has reserved. -/
def CostedUsage.Fits (usage : CostedUsage) (amount : Amount) : Prop :=
  ∀ use, usage.actual amount = some use →
    ∀ dim ∈ use.keys, 0 ≤ use.at dim ∧ use.at dim ≤ amount.at dim

/-- The sink takes the start of an attempt, and a reported usage fits. -/
def ModelWorld.Orderly (w : ModelWorld) : ModelStep → Prop
  | .started _ taken => taken = true
  | .settle c => ∀ call r usage again, w.call? c = some call →
      call.phase = .settling r usage again → usage.Fits r.amount
  | _ => True

/-! ## The number of attempts and of permits -/

section Counting

variable {maxAttempts concurrency : Nat} {w w' : ModelWorld} {a : ModelStep}

/-- How many attempts a call may have made. -/
structure ModelCall.Counted (maxAttempts : Nat) (call : ModelCall) : Prop where
  bound : call.made.length ≤ maxAttempts
  waiting : call.phase = .checking → call.made.length ≤ call.attemptIndex ∧
    call.attemptIndex < maxAttempts
  held : ∀ r, call.phase.reservation? = some r → call.made.length ≤ call.attemptIndex + 1
  again : ∀ r usage, call.phase = .settling r usage true → call.attemptIndex + 1 < maxAttempts
  pausing : call.phase = .pausing → call.made.length ≤ call.attemptIndex + 1 ∧
    call.attemptIndex + 1 < maxAttempts

theorem ModelWorld.call?_eq_some {c : ModelCallId} {call : ModelCall}
    (h : w.call? c = some call) : w.calls.get? c = some call := (Option.filter_eq_some_iff.mp h).1

theorem ModelWorld.get?_moves (w : ModelWorld) (c c' : ModelCallId) (call : ModelCall) :
    (w.moves c call).calls.get? c' = if c' = c then some call else w.calls.get? c' :=
  Table.get?_put ..

/-- What holds of all calls and of the new one holds of all calls then. -/
theorem ModelWorld.moves_all {P : ModelCall → Prop} {c : ModelCallId} {call : ModelCall}
    (all : ∀ c call, w.calls.get? c = some call → P call) (here : P call) :
    ∀ c' call', (w.moves c call).calls.get? c' = some call' → P call' := by
  intro c' call' found
  rw [get?_moves] at found
  split at found
  · cases found
    exact here
  · exact all c' call' found

/-- What the transaction of `reserve` does: the call waits, it raises, or it has a reservation. -/
inductive ModelWorld.Reserves (concurrency : Nat) (w : ModelWorld) (c : ModelCallId)
    (call : ModelCall) (attempt : AttemptKey) (account : RunId) : ModelWorld → Prop where
  | waits : Reserves concurrency w c call attempt account w
  | raises : Reserves concurrency w c call attempt account (w.moves c { call with phase := .ended })
  | takes (items : Items) (ledger : Ledger) (free : w.active < concurrency)
      (reserved : w.ledger.reserve account (.model attempt) items = .ok ledger) :
      Reserves concurrency w c call attempt account
        ({ w with
            ledger
            permits := w.permits.put attempt { process := call.process, accountId := account }
          : ModelWorld }.moves c { call with
          phase := .reserved { attempt, accountId := account, amount := items.amount }
          made := attempt :: call.made })

theorem ModelWorld.reserveStep_cases (concurrency : Nat) (w : ModelWorld) (c : ModelCallId)
    (call : ModelCall) (attempt : AttemptKey) (account : RunId) (inputTokens outputTokens : Nat)
    (prices : Option (Rat × Rat)) : w.Reserves concurrency c call attempt account
      (w.reserveStep concurrency c call attempt account inputTokens outputTokens prices) := by
  unfold reserveStep
  split
  case isFalse => exact .waits
  case isTrue free =>
    cases w.ledger.account account with
    | error e => exact .raises
    | ok row =>
        dsimp only
        cases modelAmount row inputTokens outputTokens prices with
        | none => exact .raises
        | some items =>
            dsimp only [take]
            cases reserved : w.ledger.reserve account (.model attempt) items with
            | error e => exact .raises
            | ok ledger => exact .takes items ledger free reserved

theorem TryOutcome.lt_of_again {attemptIndex : Nat} (outcome : TryOutcome)
    (again : outcome.again maxAttempts attemptIndex = true) : attemptIndex + 1 < maxAttempts := by
  cases outcome with
  | returned usage => cases again
  | cancelled usage => cases again
  | raised usage retryable reported =>
      simp only [TryOutcome.again, Bool.and_eq_true, decide_eq_true_eq] at again
      exact again.2

/-- The calls after a step are the calls before, but for one, which is as the step has left it. -/
theorem ModelCall.Counted.step (step : w.Next maxAttempts concurrency a w')
    (counted : ∀ c call, w.calls.get? c = some call → call.Counted maxAttempts) :
    ∀ c call, w'.calls.get? c = some call → call.Counted maxAttempts := by
  have ended : ∀ {call : ModelCall}, call.phase = .ended → call.made.length ≤ maxAttempts →
      call.Counted maxAttempts := fun ended bound => {
    bound
    waiting := fun h => by rw [ended] at h; cases h
    held := fun _ h => by rw [ended] at h; cases h
    again := fun _ _ h => by rw [ended] at h; cases h
    pausing := fun h => by rw [ended] at h; cases h }
  cases step with
  | spawn p unused new => exact counted
  | die p => exact counted
  | ledger ledger keeps => exact counted
  | begin c p runs new =>
      refine ModelWorld.moves_all counted ?_
      split
      case isTrue none => exact ended rfl (Nat.zero_le _)
      case isFalse some =>
        exact {
          bound := Nat.zero_le _
          waiting := fun _ => ⟨Nat.zero_le _, Nat.pos_of_ne_zero some⟩
          held := fun _ h => by cases h
          again := fun _ _ h => by cases h
          pausing := fun h => by cases h }
  | leave found phase =>
      exact ModelWorld.moves_all counted (ended rfl (counted _ _ (ModelWorld.call?_eq_some found)).bound)
  | @reserve c call attempt account inputTokens outputTokens prices found phase new =>
      have before := counted _ _ (ModelWorld.call?_eq_some found)
      have result := w.reserveStep_cases concurrency c call attempt account inputTokens outputTokens
        prices
      generalize w.reserveStep _ _ _ _ _ _ _ _ = w' at result ⊢
      cases result with
      | waits => exact counted
      | raises => exact ModelWorld.moves_all counted (ended rfl before.bound)
      | takes items ledger free reserved =>
          obtain ⟨made, more⟩ := before.waiting phase
          refine ModelWorld.moves_all counted ?_
          exact {
            bound := (Nat.succ_le_succ made).trans more
            waiting := fun h => by cases h
            held := fun _ _ => Nat.succ_le_succ made
            again := fun _ _ h => by cases h
            pausing := fun h => by cases h }
  | @started c call r taken found phase =>
      have before := counted _ _ (ModelWorld.call?_eq_some found)
      refine ModelWorld.moves_all counted ?_
      cases taken with
      | false => exact ended rfl before.bound
      | true =>
          exact {
            bound := before.bound
            waiting := fun h => by cases h
            held := fun _ _ => before.held r (by rw [phase]; rfl)
            again := fun _ _ h => by cases h
            pausing := fun h => by cases h }
  | @tried c call r outcome found phase =>
      have before := counted _ _ (ModelWorld.call?_eq_some found)
      refine ModelWorld.moves_all counted ?_
      exact {
        bound := before.bound
        waiting := fun h => by cases h
        held := fun _ _ => before.held r (by rw [phase]; rfl)
        again := fun r' usage h => by
          injection h with _ _ again
          exact outcome.lt_of_again again
        pausing := fun h => by cases h }
  | @settle c call r usage again found phase =>
      have before := counted _ _ (ModelWorld.call?_eq_some found)
      have held := before.held r (by rw [phase]; rfl)
      unfold ModelWorld.settleStep
      dsimp only
      split
      · exact ModelWorld.moves_all counted (ended rfl before.bound)
      · refine ModelWorld.moves_all counted ?_
        cases again with
        | false => exact ended rfl before.bound
        | true =>
            exact {
              bound := before.bound
              waiting := fun h => by cases h
              held := fun _ h => by cases h
              again := fun _ _ h => by cases h
              pausing := fun _ => ⟨held, before.again r usage phase⟩ }
  | @resume c call found phase =>
      have before := counted _ _ (ModelWorld.call?_eq_some found)
      obtain ⟨made, more⟩ := before.pausing phase
      refine ModelWorld.moves_all counted ?_
      exact {
        bound := before.bound
        waiting := fun _ => ⟨made, more⟩
        held := fun _ h => by cases h
        again := fun _ _ h => by cases h
        pausing := fun h => by cases h }

/-- A live permit is taken only where one is free. -/
theorem ModelWorld.active_step (step : w.Next maxAttempts concurrency a w')
    (within : w.active ≤ concurrency) : w'.active ≤ concurrency := by
  cases step with
  | spawn p unused new =>
      -- No permit names the new process, so the same permits are live.
      refine Nat.le_trans (Nat.le_of_eq ?_) within
      refine congrArg List.length (List.filter_congr fun e he => ?_)
      have other := unused e.1 e.2 (Table.mem_rows.mp he)
      have apart : (p :: w.processes).contains e.2.process = w.processes.contains e.2.process := by
        rw [List.contains_cons, beq_false_of_ne other, Bool.false_or]
      simp only [ModelWorld.live, apart]
  | die p =>
      refine Nat.le_trans (List.Sublist.length_le ?_) within
      refine List.monotone_filter_right w.permits.rows fun e live => ?_
      simp only [ModelWorld.live, Bool.and_eq_true, List.contains_iff_mem, List.mem_filter] at live ⊢
      exact ⟨live.1, live.2.1⟩
  | begin c p runs new => exact within
  | leave found phase => exact within
  | @reserve c call attempt account inputTokens outputTokens prices found phase new =>
      have result := w.reserveStep_cases concurrency c call attempt account inputTokens outputTokens
        prices
      generalize w.reserveStep _ _ _ _ _ _ _ _ = w' at result ⊢
      cases result with
      | waits => exact within
      | raises => exact within
      | takes items ledger free reserved =>
          exact (Table.length_select_put_le w.permits attempt _ w.live).trans free
  | started taken found phase => exact within
  | tried outcome found phase => exact within
  | @settle c call r usage again found phase =>
      unfold ModelWorld.settleStep
      dsimp only
      split
      · exact (Table.length_select_erase_le w.permits r.attempt w.live).trans within
      · exact (Table.length_select_erase_le w.permits r.attempt w.live).trans within
  | resume found phase => exact within
  | ledger ledger keeps => exact within

/-- In every run, whatever raises. -/
theorem gateway_bounds (reached : (modelSystem maxAttempts concurrency).Reachable w) :
    w.active ≤ concurrency ∧
      ∀ c call, w.calls.get? c = some call → call.Counted maxAttempts := by
  refine reached.invariant (I := fun w => w.active ≤ concurrency ∧
    ∀ c call, w.calls.get? c = some call → call.Counted maxAttempts) ?_ ?_
  · rintro w ⟨permits, calls⟩
    refine ⟨?_, fun c call found => ?_⟩
    · rw [ModelWorld.active, permits]
      exact Nat.zero_le _
    · rw [calls] at found
      cases found
  · rintro w a w' _ ⟨within, counted⟩ step
    exact ⟨ModelWorld.active_step step within, ModelCall.Counted.step step counted⟩

end Counting

/-! ## Pairs -/

section Pairing

variable {maxAttempts concurrency : Nat} {w w' : ModelWorld} {a : ModelStep}

/-- The reservation that a call holds: its permit and its row. -/
structure ModelWorld.Holds (w : ModelWorld) (call : ModelCall) (r : ModelReservation) : Prop where
  permit : w.permits.get? r.attempt = some { process := call.process, accountId := r.accountId }
  row : w.ledger.reservations.get? (.model r.attempt) =
    some { accountId := r.accountId, amount := r.amount }
  account : ∃ account, w.ledger.accounts.get? r.accountId = some account

/-- What holds of a call while all steps are orderly. -/
structure ModelWorld.CallSound (w : ModelWorld) (call : ModelCall) : Prop where
  pairs : w.Pairs call
  recorded : ∀ a ∈ call.made, ∃ r, w.ledger.reservations.get? (.model a) = some r
  holds : ∀ r, call.phase.reservation? = some r → w.Holds call r

structure ModelWorld.Sound (w : ModelWorld) : Prop where
  calls : ∀ c call, w.calls.get? c = some call → w.CallSound call
  apart : ∀ c c' call call', w.calls.get? c = some call → w.calls.get? c' = some call' → c ≠ c' →
    ∀ a ∈ call.made, a ∉ call'.made
  /-- Every permit belongs to a reservation of the ledger. -/
  rows : ∀ a permit, w.permits.get? a = some permit →
    ∃ r, w.ledger.reservations.get? (.model a) = some r

/-- The rows of an attempt are the same. -/
structure ModelWorld.Same (w w' : ModelWorld) (a : AttemptKey) : Prop where
  permit : w'.permits.get? a = w.permits.get? a
  row : w'.ledger.reservations.get? (.model a) = w.ledger.reservations.get? (.model a)

def ModelWorld.KeepsAccounts (w w' : ModelWorld) : Prop :=
  ∀ id account, w.ledger.accounts.get? id = some account →
    ∃ account', w'.ledger.accounts.get? id = some account'

theorem ModelWorld.CallSound.congr {call : ModelCall} (sound : w.CallSound call)
    (same : ∀ a ∈ call.made, w.Same w' a) (accounts : w.KeepsAccounts w') : w'.CallSound call := by
  have mine : ∀ a ∈ call.settled, a ∈ call.made := fun a h => by
    rw [sound.pairs.paired]
    exact List.mem_append_right _ h
  constructor
  · refine ⟨sound.pairs.once, sound.pairs.paired, fun a h => ?_⟩
    obtain ⟨released, state⟩ := sound.pairs.settled a h
    obtain ⟨permit, row⟩ := same a (mine a h)
    exact ⟨permit.trans released, row ▸ state⟩
  · intro a h
    rw [(same a h).row]
    exact sound.recorded a h
  · intro r held
    have made : r.attempt ∈ call.made := by
      rw [sound.pairs.paired, held]
      exact List.mem_cons_self ..
    obtain ⟨permit, row⟩ := same _ made
    obtain ⟨permit', row', account, found⟩ := sound.holds r held
    exact ⟨permit.trans permit', row.trans row', accounts _ account found⟩

/-- A step that changes one call and the rows of its attempts. -/
theorem ModelWorld.Sound.update (sound : w.Sound) {c : ModelCallId} {call : ModelCall}
    (calls : ∀ c', w'.calls.get? c' = if c' = c then some call else w.calls.get? c')
    (apart : ∀ a ∈ call.made, ∀ c' call', c' ≠ c → w.calls.get? c' = some call' → a ∉ call'.made)
    (same : ∀ a, a ∉ call.made → w.Same w' a) (accounts : w.KeepsAccounts w')
    (own : w'.CallSound call) : w'.Sound where
  calls c' call' found := by
    rw [calls] at found
    split at found
    · cases found
      exact own
    · rename_i other
      refine (sound.calls c' call' found).congr (fun a ha => same a fun mine => ?_) accounts
      exact apart a mine c' call' other found ha
  apart c₁ c₂ call₁ call₂ found₁ found₂ different a ha := by
    rw [calls] at found₁ found₂
    split at found₁
    · rename_i first
      cases found₁
      rw [if_neg fun second => different (first.trans second.symm)] at found₂
      exact apart a ha c₂ call₂ (fun second => different (first.trans second.symm)) found₂
    · rename_i first
      split at found₂
      · cases found₂
        exact fun mine => apart a mine c₁ call₁ first found₁ ha
      · exact sound.apart c₁ c₂ call₁ call₂ found₁ found₂ different a ha
  rows a permit found := by
    by_cases mine : a ∈ call.made
    · exact own.recorded a mine
    · obtain ⟨permit', row⟩ := same a mine
      rw [row]
      exact sound.rows a permit (permit'.symm.trans found)

/-- A step that changes no call and none of their rows. -/
theorem ModelWorld.Sound.congr (sound : w.Sound) (calls : w'.calls = w.calls)
    (same : ∀ a, w.Same w' a) (accounts : w.KeepsAccounts w') : w'.Sound where
  calls c call found := (sound.calls c call (calls ▸ found)).congr (fun a _ => same a) accounts
  apart c c' call call' found found' := sound.apart c c' call call' (calls ▸ found) (calls ▸ found')
  rows a permit found := by
    obtain ⟨permit', row⟩ := same a
    rw [row]
    exact sound.rows a permit (permit'.symm.trans found)

/-- The step of a call that keeps its attempts and touches no rows. -/
theorem ModelWorld.Sound.moves (sound : w.Sound) {c : ModelCallId} {call call' : ModelCall}
    (found : w.calls.get? c = some call) (made : call'.made = call.made) (own : w.CallSound call') :
    (w.moves c call').Sound := by
  refine sound.update (w.get?_moves c · call') ?_ (fun a _ => ⟨rfl, rfl⟩)
    (fun _ account h => ⟨account, h⟩) (own.congr (fun a _ => ⟨rfl, rfl⟩) fun _ account h => ⟨account, h⟩)
  rw [made]
  exact fun a ha c' call₁ other found' => sound.apart c c' call call₁ found found' other.symm a ha

/-- A phase with the same reservation. -/
theorem ModelWorld.CallSound.phase {call call' : ModelCall} (sound : w.CallSound call)
    (process : call'.process = call.process) (made : call'.made = call.made)
    (settled : call'.settled = call.settled)
    (reservation : call'.phase.reservation? = call.phase.reservation?) : w.CallSound call' where
  pairs := {
    once := made ▸ sound.pairs.once
    paired := by rw [made, settled, reservation]; exact sound.pairs.paired
    settled := settled ▸ sound.pairs.settled }
  recorded := made ▸ sound.recorded
  holds r held := by
    obtain ⟨permit, row, account⟩ := sound.holds r (reservation ▸ held)
    exact ⟨process ▸ permit, row, account⟩

/-- What the ledger accepts. -/
theorem ModelWorld.Holds.settles_iff {call : ModelCall} {r : ModelReservation}
    {usage : CostedUsage} (holds : w.Holds call r) :
    (∃ ledger, w.ledger.settle (.model r.attempt) (usage.actual r.amount) = .ok ledger) ↔
      usage.Fits r.amount := by
  obtain ⟨-, row, account, found⟩ := holds
  constructor
  · rintro ⟨ledger, settled⟩ use known
    obtain ⟨saved, hsaved, ⟨state, -⟩ | ⟨-, unknown, -⟩ | ⟨-, use', _, known', -, fits, -⟩⟩ :=
      Ledger.settle_eq_ok settled
    · cases row.symm.trans hsaved
      cases state
    · cases known.symm.trans unknown
    · cases row.symm.trans hsaved
      cases known.symm.trans known'
      exact fits
  · intro fits
    unfold Ledger.settle
    rw [row, orThrow, ok_bind, if_neg (by simp)]
    cases known : usage.actual r.amount with
    | none => exact ⟨_, rfl⟩
    | some use =>
        have named : w.ledger.account r.accountId = .ok account := by
          rw [Ledger.account, found, orThrow]
        dsimp only
        rw [named, ok_bind, require_pos _ (fits use known), ok_bind]
        exact ⟨_, rfl⟩

/-- What the ledger has done when it accepts. -/
structure ModelWorld.Closed (w : ModelWorld) (a : AttemptKey) (ledger : Ledger) : Prop where
  state : ∃ r, ledger.reservations.get? (.model a) = some r ∧ r.state ≠ .reserved
  others : ∀ b, b ≠ a → ledger.reservations.get? (.model b) = w.ledger.reservations.get? (.model b)
  accounts : ∀ id account, w.ledger.accounts.get? id = some account →
    ∃ account', ledger.accounts.get? id = some account'

theorem ModelWorld.Closed.of_settle {a : AttemptKey} {actual : Option Amount} {ledger : Ledger}
    (settled : w.ledger.settle (.model a) actual = .ok ledger) : w.Closed a ledger := by
  obtain ⟨saved, found, ⟨state, -, rfl⟩ | ⟨-, -, rfl⟩ | ⟨-, use, _, -, -, -, rfl⟩⟩ :=
    Ledger.settle_eq_ok settled
  · exact ⟨⟨saved, found, by simp [state]⟩, fun b _ => rfl, fun _ account h => ⟨account, h⟩⟩
  · refine ⟨⟨_, by rw [Table.get?_modify_self, found]; rfl, by simp⟩, fun b other => ?_,
      fun _ account h => ⟨account, h⟩⟩
    exact Table.get?_modify_ne _ _ (by simpa using other)
  · refine ⟨⟨_, by rw [Table.get?_modify_self, found]; rfl, by simp⟩, fun b other => ?_,
      fun _ account h => Table.get?_modify_some _ h⟩
    exact Table.get?_modify_ne _ _ (by simpa using other)

/-- The step of `reserve` that takes a permit. -/
theorem ModelWorld.Sound.takes (sound : w.Sound) {c : ModelCallId} {call : ModelCall}
    {attempt : AttemptKey} {account : RunId} {items : Items} {ledger : Ledger}
    (found : w.calls.get? c = some call) (phase : call.phase = .checking)
    (new : w.ledger.reservations.get? (.model attempt) = none)
    (reserved : w.ledger.reserve account (.model attempt) items = .ok ledger) :
    ({ w with
        ledger
        permits := w.permits.put attempt { process := call.process, accountId := account }
      : ModelWorld }.moves c { call with
      phase := .reserved { attempt, accountId := account, amount := items.amount }
      made := attempt :: call.made }).Sound := by
  have unmade : ∀ c' call', w.calls.get? c' = some call' → attempt ∉ call'.made := by
    intro c' call' found' made
    obtain ⟨r, row⟩ := (sound.calls c' call' found').recorded attempt made
    cases new.symm.trans row
  have before := sound.calls c call found
  have settled : call.made = call.settled := by
    have paired := before.pairs.paired
    rwa [phase] at paired
  obtain ⟨saved, saved', -⟩ | ⟨row, reservations, hrow, -, -, hinsert, rfl⟩ :=
    Ledger.reserve_eq_ok reserved
  · cases new.symm.trans saved'
  have rows := (Table.insert?_eq_some hinsert).2
  have accounts : ∀ id a, w.ledger.accounts.get? id = some a →
      ∃ a', (w.ledger.accounts.modify account (Ledger.hold items.amount)).get? id = some a' :=
    fun id a h => Table.get?_modify_some _ h
  have other : ∀ a, a ≠ attempt → w.Same ({ w with
        ledger := { accounts := w.ledger.accounts.modify account (Ledger.hold items.amount), reservations }
        permits := w.permits.put attempt { process := call.process, accountId := account }
      : ModelWorld }.moves c { call with
      phase := .reserved { attempt, accountId := account, amount := items.amount }
      made := attempt :: call.made }) a := by
    intro a ne
    constructor
    · exact (Table.get?_put ..).trans (if_neg ne)
    · exact (rows _).trans (if_neg (by simpa using ne))
  refine sound.update (w.get?_moves c · _) ?_ (fun a unmade' => ?_) accounts ?_
  · intro a ha c' call' ne found'
    rcases List.mem_cons.mp ha with rfl | ha
    · exact unmade c' call' found'
    · exact sound.apart c c' call call' found found' ne.symm a ha
  · exact other a fun same => unmade' (same ▸ List.mem_cons_self ..)
  · have kept := before.congr
      (fun a ha => other a fun same => unmade c call found (same ▸ ha)) accounts
    constructor
    · exact {
        once := List.nodup_cons.mpr ⟨unmade c call found, before.pairs.once⟩
        paired := congrArg _ settled
        settled := kept.pairs.settled }
    · intro a ha
      rcases List.mem_cons.mp ha with rfl | ha
      · exact ⟨_, (rows _).trans (if_pos rfl)⟩
      · exact kept.recorded a ha
    · intro r held
      cases held
      obtain ⟨a', ha'⟩ := accounts account row hrow
      exact ⟨(Table.get?_put ..).trans (if_pos rfl), (rows _).trans (if_pos rfl), a', ha'⟩

/-- The step of `settle` that the ledger accepts. -/
theorem ModelWorld.Sound.settles (sound : w.Sound) {c : ModelCallId} {call : ModelCall}
    {r : ModelReservation} {usage : CostedUsage} {again : Bool} {next : ModelPhase} {ledger : Ledger}
    (found : w.calls.get? c = some call) (phase : call.phase = .settling r usage again)
    (free : next.reservation? = none) (closed : w.Closed r.attempt ledger) :
    ({ w with permits := w.permits.erase r.attempt, ledger : ModelWorld }.moves c { call with
      phase := next
      settled := r.attempt :: call.settled }).Sound := by
  have before := sound.calls c call found
  have paired : call.made = r.attempt :: call.settled := by
    have paired := before.pairs.paired
    rwa [phase] at paired
  have other : ∀ a, a ≠ r.attempt → w.Same
      ({ w with permits := w.permits.erase r.attempt, ledger : ModelWorld }.moves c { call with
        phase := next
        settled := r.attempt :: call.settled }) a :=
    fun a ne => ⟨(Table.get?_erase ..).trans (if_neg ne), closed.others a ne⟩
  refine sound.update (w.get?_moves c · _) ?_ (fun a unmade => ?_) closed.accounts ?_
  · exact fun a ha c' call' ne found' => sound.apart c c' call call' found found' ne.symm a ha
  · refine other a fun same => unmade ?_
    change a ∈ call.made
    rw [same, paired]
    exact List.mem_cons_self ..
  · have once := before.pairs.once
    rw [paired, List.nodup_cons] at once
    constructor
    · refine { once := before.pairs.once, paired := ?_, settled := fun a ha => ?_ }
      · rw [free]
        exact paired
      rcases List.mem_cons.mp ha with rfl | ha
      · exact ⟨(Table.get?_erase ..).trans (if_pos rfl), closed.state⟩
      · obtain ⟨released, state⟩ := before.pairs.settled a ha
        obtain ⟨permit, row⟩ := other a fun same => once.1 (same ▸ ha)
        exact ⟨permit.trans released, row ▸ state⟩
    · intro a ha
      by_cases same : a = r.attempt
      · obtain ⟨saved, row, -⟩ := closed.state
        exact ⟨saved, same ▸ row⟩
      · rw [(other a same).row]
        exact before.recorded a ha
    · intro r' held
      rw [free] at held
      cases held

/-- The refused settlement leaves the reservation as it is. -/
theorem ModelWorld.Holds.open {call : ModelCall} {r : ModelReservation} (holds : w.Holds call r)
    {w' : ModelWorld} (same : w'.ledger = w.ledger) : ¬w'.Settled r.attempt := by
  rintro ⟨-, saved, row, state⟩
  rw [same] at row
  cases holds.row.symm.trans row
  exact state rfl

/-- A step that is orderly keeps the books of all calls. -/
theorem ModelWorld.Sound.step (step : w.Next maxAttempts concurrency a w') (sound : w.Sound)
    (orderly : w.Orderly a) : w'.Sound := by
  cases step with
  | spawn p unused new =>
      exact sound.congr rfl (fun _ => ⟨rfl, rfl⟩) fun _ account h => ⟨account, h⟩
  | die p => exact sound.congr rfl (fun _ => ⟨rfl, rfl⟩) fun _ account h => ⟨account, h⟩
  | ledger ledger keeps => exact sound.congr rfl (fun a => ⟨rfl, keeps.1 a⟩) keeps.2
  | begin c p runs new =>
      refine sound.update (w.get?_moves c · _) (fun _ h => nomatch h) (fun _ _ => ⟨rfl, rfl⟩)
        (fun _ account h => ⟨account, h⟩) ?_
      have free : (if maxAttempts = 0 then ModelPhase.ended else .checking).reservation? = none := by
        split
        · rfl
        · rfl
      exact {
        pairs := {
          once := List.nodup_nil
          paired := by rw [free]; rfl
          settled := fun _ h => nomatch h }
        recorded := fun _ h => nomatch h
        holds := fun r held => by rw [free] at held; cases held }
  | leave found phase =>
      have here := call?_eq_some found
      refine sound.moves here rfl ((sound.calls _ _ here).phase rfl rfl rfl ?_)
      rcases phase with phase | phase
      · rw [phase]
        rfl
      · rw [phase]
        rfl
  | @reserve c call attempt account inputTokens outputTokens prices found phase new =>
      have here := call?_eq_some found
      have result := w.reserveStep_cases concurrency c call attempt account inputTokens outputTokens
        prices
      generalize w.reserveStep _ _ _ _ _ _ _ _ = w' at result ⊢
      cases result with
      | waits => exact sound
      | raises =>
          refine sound.moves here rfl ((sound.calls _ _ here).phase rfl rfl rfl ?_)
          rw [phase]
          rfl
      | takes items ledger free reserved => exact sound.takes here phase new reserved
  | @started c call r taken found phase =>
      have here := call?_eq_some found
      cases orderly
      refine sound.moves here rfl ((sound.calls _ _ here).phase rfl rfl rfl ?_)
      rw [phase]
      rfl
  | @tried c call r outcome found phase =>
      have here := call?_eq_some found
      refine sound.moves here rfl ((sound.calls _ _ here).phase rfl rfl rfl ?_)
      rw [phase]
      rfl
  | @settle c call r usage again found phase =>
      have here := call?_eq_some found
      have holds := (sound.calls _ _ here).holds r (by rw [phase]; rfl)
      obtain ⟨ledger, accepted⟩ := holds.settles_iff.mpr (orderly call r usage again found phase)
      unfold settleStep
      rw [accepted]
      refine sound.settles here phase ?_ (.of_settle accepted)
      cases again
      · rfl
      · rfl
  | resume found phase =>
      have here := call?_eq_some found
      refine sound.moves here rfl ((sound.calls _ _ here).phase rfl rfl rfl ?_)
      rw [phase]
      rfl

/-- A step that is not orderly leaves an attempt without its settlement. -/
theorem ModelWorld.Sound.orderly_of_paired (step : w.Next maxAttempts concurrency a w') (sound : w.Sound)
    (paired : w'.Paired) : w.Orderly a := by
  cases step with
  | @started c call r taken found phase =>
      cases taken with
      | true => rfl
      | false =>
          have here := call?_eq_some found
          have before := (sound.calls _ _ here).pairs.paired
          have after := (paired c _ ((w.get?_moves c c _).trans (if_pos rfl))).paired
          rw [phase] at before
          exact absurd (before.symm.trans after) (by simp [ModelPhase.reservation?])
  | @settle c call r usage again found phase =>
      have here := call?_eq_some found
      have holds := (sound.calls _ _ here).holds r (by rw [phase]; rfl)
      intro call' r' usage' again' found' phase'
      cases found.symm.trans found'
      cases phase.symm.trans phase'
      refine holds.settles_iff.mp ?_
      unfold settleStep at paired
      cases accepted : w.ledger.settle (.model r.attempt) (usage.actual r.amount) with
      | ok ledger => exact ⟨ledger, rfl⟩
      | error e =>
          rw [accepted] at paired
          have after := paired c _ ((ModelWorld.get?_moves _ c c _).trans (if_pos rfl))
          exact absurd (after.settled r.attempt (List.mem_cons_self ..)) (holds.open rfl)
  | spawn p unused new => trivial
  | die p => trivial
  | ledger ledger keeps => trivial
  | begin c p runs new => trivial
  | leave found phase => trivial
  | reserve attempt account inputTokens outputTokens prices found phase new => trivial
  | tried outcome found phase => trivial
  | resume found phase => trivial

theorem ModelWorld.Sound.init (start : (modelSystem maxAttempts concurrency).init w) : w.Sound := by
  obtain ⟨permits, calls⟩ := start
  constructor
  · intro c call found
    rw [calls] at found
    cases found
  · intro c c' call call' found
    rw [calls] at found
    cases found
  · intro a permit found
    rw [permits] at found
    cases found

theorem ModelWorld.Sound.paired (sound : w.Sound) : w.Paired :=
  fun c call found => (sound.calls c call found).pairs

/-- In a run whose steps are all orderly. -/
theorem orderly_sound
    (reached : ((modelSystem maxAttempts concurrency).restrict ModelWorld.Orderly).Reachable w) :
    w.Sound := by
  refine reached.invariant (fun _ start => ?_) fun _ _ _ _ sound step => sound.step step.2 step.1
  exact @ModelWorld.Sound.init maxAttempts concurrency _ start

end Pairing

/-- The permits of live processes stay within the concurrency, and the attempts of a call within
`max_attempts`, in every run.  While all steps are orderly every attempt is paired with its settlement,
and the first step that is not leaves one that is not. -/
theorem attempts_paired (maxAttempts concurrency : Nat) :
    (∀ w, (modelSystem maxAttempts concurrency).Reachable w →
      w.active ≤ concurrency ∧
        ∀ c call, w.calls.get? c = some call → call.made.length ≤ maxAttempts) ∧
    ∀ w, ((modelSystem maxAttempts concurrency).restrict ModelWorld.Orderly).Reachable w →
      w.Paired ∧ ∀ a w', w.Next maxAttempts concurrency a w' → (w'.Paired ↔ w.Orderly a) := by
  constructor
  · intro w reached
    obtain ⟨within, counted⟩ := gateway_bounds reached
    exact ⟨within, fun c call found => (counted c call found).bound⟩
  · intro w reached
    have sound := orderly_sound reached
    refine ⟨sound.paired, fun a w' step => ⟨sound.orderly_of_paired step, fun orderly => ?_⟩⟩
    exact (sound.step step orderly).paired

namespace Sample

def gatewayProcess : ProcessId := { pid := 7, processStart := 1 }

/-- An account without limits. -/
def gatewayIdle : ModelWorld where
  ledger := { accounts := Table.empty.put 0 { limits := ∅ }, reservations := .empty }

/-- A call has its first reservation. -/
def gatewayReserved : ModelWorld :=
  (({ gatewayIdle with processes := [gatewayProcess] } : ModelWorld).moves 1
    { process := gatewayProcess }).reserveStep 1 1 { process := gatewayProcess } 5 0 10 20 none

def gatewayReservation : ModelReservation where
  attempt := 5
  accountId := 0
  amount := Items.amount [⟨.modelCalls, 1⟩, ⟨.totalTokens, 30⟩].toAList

theorem gatewayReserved_reachable :
    ((modelSystem 3 1).restrict ModelWorld.Orderly).Reachable gatewayReserved := by
  have idle : ((modelSystem 3 1).restrict ModelWorld.Orderly).Reachable gatewayIdle := .init ⟨rfl, rfl⟩
  have spawned : ((modelSystem 3 1).restrict ModelWorld.Orderly).Reachable
      { gatewayIdle with processes := [gatewayProcess] } :=
    idle.stepIf (.spawn gatewayProcess (fun _ _ h => nomatch h) fun _ _ h => nomatch h) trivial
  have begun := spawned.stepIf (.begin 1 gatewayProcess (List.mem_cons_self ..) rfl) trivial
  exact begun.stepIf (.reserve 5 0 10 20 none rfl rfl rfl) trivial

theorem gatewayReserved_call : gatewayReserved.call? 1 =
    some { process := gatewayProcess, phase := .reserved gatewayReservation, made := [5] } := by
  decide

/-- What the provider has reported. -/
def gatewayUsage : CostedUsage where
  inputTokens := some 10
  outputTokens := some 15
  totalTokens := some 25
  source := .provider

/-- The call is in its `finally`. -/
def gatewaySettling : ModelCall where
  process := gatewayProcess
  phase := .settling gatewayReservation gatewayUsage false
  made := [5]

/-- The provider has answered, and the attempt is settled. -/
def gatewaySettled : ModelWorld :=
  ((gatewayReserved.moves 1
    { process := gatewayProcess, phase := .trying gatewayReservation, made := [5] }).moves 1
      gatewaySettling).settleStep 1 gatewaySettling gatewayReservation gatewayUsage false

theorem gatewaySettled_reachable :
    ((modelSystem 3 1).restrict ModelWorld.Orderly).Reachable gatewaySettled := by
  have started := gatewayReserved_reachable.stepIf (.started true gatewayReserved_call rfl) rfl
  have trying : (gatewayReserved.moves 1
      { process := gatewayProcess, phase := .trying gatewayReservation, made := [5] }).call? 1 =
        some { process := gatewayProcess, phase := .trying gatewayReservation, made := [5] } := by decide
  have tried := started.stepIf (.tried (.returned gatewayUsage) trying rfl) trivial
  have found : ((gatewayReserved.moves 1
      { process := gatewayProcess, phase := .trying gatewayReservation, made := [5] }).moves 1
        gatewaySettling).call? 1 = some gatewaySettling := by decide
  refine tried.stepIf (.settle found rfl) ?_
  -- the call is the only one, and what it reports is below its reservation
  intro call r usage again here phase
  cases found.symm.trans here
  cases phase
  intro use actual
  cases actual
  decide

end Sample

/-- A call whose only attempt is settled: its reservation is one that was made, and nothing is held. -/
theorem attempts_paired_settled :
    ((modelSystem 3 1).restrict ModelWorld.Orderly).Reachable Sample.gatewaySettled ∧
      (∃ call, Sample.gatewaySettled.calls.get? 1 = some call ∧ call.phase = .ended ∧
        call.made = [5] ∧ call.settled = [5]) ∧
      Sample.gatewaySettled.Paired := by
  refine ⟨Sample.gatewaySettled_reachable, ?_, ?_⟩
  · exact ⟨_, rfl, rfl, rfl, rfl⟩
  · exact ((attempts_paired 3 1).2 _ Sample.gatewaySettled_reachable).1

namespace Sample

/-- The call has said that it starts, and the sink has raised. -/
def gatewayRefused : ModelWorld :=
  gatewayReserved.moves 1 { process := gatewayProcess, phase := .ended, made := [5] }

theorem gatewayRefused_reachable : (modelSystem 3 1).Reachable gatewayRefused :=
  gatewayReserved_reachable.of_restrict.step (.started false gatewayReserved_call rfl)

end Sample

/-- The sink raises at the first `model.attempt.started`: the call ends and its permit stays. -/
theorem started_refused :
    ∃ w, (modelSystem 3 1).Reachable w ∧ ¬w.Paired ∧
      ∃ call permit, w.calls.get? 1 = some call ∧ call.phase = .ended ∧ call.made = [5] ∧
        call.settled = [] ∧ w.permits.get? 5 = some permit ∧ w.live permit = true := by
  have permit : Sample.gatewayRefused.permits.get? 5 =
      some { process := Sample.gatewayProcess, accountId := 0 } := by decide +kernel
  refine ⟨Sample.gatewayRefused, Sample.gatewayRefused_reachable, fun paired => ?_, _, _, rfl, rfl, rfl,
    rfl, permit, by decide +kernel⟩
  exact nomatch (paired 1 _ rfl).paired

end MiHarness

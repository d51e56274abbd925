import Mathlib.Tactic.Linarith
import Mathlib.Tactic.Ring
import MiHarness.Library.System
import MiHarness.Storage.Budget

/-!
# Conservation of the budget ledger

The calls of the ledger form a system of their own: a call that raises rolls its transaction
back, so it leaves the ledger as it is.  `Conserved` is the law that every call keeps: what an
account holds back is what its open reservations ask for, what it has consumed is what its
settled ones have used, and no dimension that a reservation names exceeds its limit.
-/

namespace MiHarness

open Library

/-! ## Shares of a reservation -/

/-- What a reservation holds back of an account, until it is settled. -/
def Reservation.held (id : RunId) (dim : Dimension) (r : Reservation) : Rat :=
  if r.accountId = id ∧ r.state ≠ .settled then r.amount.at dim else 0

/-- What a settled reservation has used of an account. -/
def Reservation.used (id : RunId) (dim : Dimension) (r : Reservation) : Rat :=
  if r.accountId = id ∧ r.state = .settled then (r.actual.map (Amount.at · dim)).getD 0 else 0

theorem Reservation.held_other {id : RunId} {dim : Dimension} {r : Reservation}
    (h : r.accountId ≠ id) : r.held id dim = 0 :=
  if_neg fun both => h both.1

theorem Reservation.used_other {id : RunId} {dim : Dimension} {r : Reservation}
    (h : r.accountId ≠ id) : r.used id dim = 0 :=
  if_neg fun both => h both.1

namespace Ledger

variable {l l' : Ledger}

/-! ## What a call does -/

theorem addAccount_eq_ok {id : RunId} {limits : Amount} (h : l.addAccount id limits = .ok l') :
    ∃ accounts, l.accounts.insert? id { limits } = some accounts ∧ l' = { l with accounts } := by
  simp only [addAccount, bind_eq_ok, orThrow_eq_ok, Except.ok.injEq] at h
  obtain ⟨accounts, hinsert, rfl⟩ := h
  exact ⟨accounts, hinsert, rfl⟩

/-- The account after `reserve` of an amount. -/
def hold (amount : Amount) (a : Account) : Account :=
  { a with reserved := fun dim => a.reserved dim + amount.at dim }

/-- The account after `settle` of an amount at the actual use. -/
def release (amount actual : Amount) (a : Account) : Account :=
  { a with
    reserved := fun dim => a.reserved dim - amount.at dim
    consumed := fun dim => a.consumed dim + if dim ∈ amount then actual.at dim else 0 }

theorem checkItem_eq_ok {a : Account} {item : (_ : Dimension) × Rat} {u : Unit} :
    checkItem a item = .ok u ↔ 0 ≤ item.2 ∧ withinLimit a item.1 item.2 := by
  simp only [checkItem, bind_eq_ok, require_eq_ok, exists_const]

/-- The loop passes when every dimension of the amount passes. -/
theorem checkItems_eq_ok {a : Account} {items : Items} {u : Unit} :
    items.entries.forM (checkItem a) = .ok u ↔ ∀ dim ∈ items.amount.keys,
      0 ≤ items.amount.at dim ∧ withinLimit a dim (items.amount.at dim) := by
  rw [forM_eq_ok, ← Items.forall_entries (P := fun dim value => 0 ≤ value ∧ withinLimit a dim value)]
  exact forall₂_congr fun _ _ => checkItem_eq_ok

theorem reserve_eq_ok {id : RunId} {key : ReservationKey} {items : Items}
    (h : l.reserve id key items = .ok l') :
    (∃ saved, l.reservations.get? key = some saved ∧ saved.accountId = id ∧
        saved.amount = items.amount ∧ l' = l) ∨
      ∃ a reservations, l.accounts.get? id = some a ∧
        (∀ dim ∈ items.amount.keys, 0 ≤ items.amount.at dim) ∧
        (∀ dim ∈ items.amount.keys, withinLimit a dim (items.amount.at dim)) ∧
        l.reservations.insert? key { accountId := id, amount := items.amount } =
          some reservations ∧
        l' = { accounts := l.accounts.modify id (hold items.amount), reservations } := by
  unfold reserve at h
  split at h
  · rename_i saved hsaved
    simp only [bind_eq_ok, require_eq_ok, exists_const, Except.ok.injEq] at h
    obtain ⟨⟨account, same⟩, rfl⟩ := h
    exact .inl ⟨saved, hsaved, account, same, rfl⟩
  · simp only [account, bind_eq_ok, orThrow_eq_ok, Except.ok.injEq] at h
    obtain ⟨a, ha, _, checked, reservations, hinsert, rfl⟩ := h
    have fits := checkItems_eq_ok.mp checked
    exact .inr ⟨a, reservations, ha, fun dim hdim => (fits dim hdim).1,
      fun dim hdim => (fits dim hdim).2, hinsert, rfl⟩

theorem settle_eq_ok {key : ReservationKey} {actual : Option Amount}
    (h : l.settle key actual = .ok l') :
    ∃ saved, l.reservations.get? key = some saved ∧
      (saved.state = .settled ∧ saved.actual = actual ∧ l' = l ∨
        saved.state ≠ .settled ∧ actual = none ∧
          l' = { l with
            reservations := l.reservations.modify key fun r => { r with state := .unknown } } ∨
        saved.state ≠ .settled ∧ ∃ use a, actual = some use ∧
          l.accounts.get? saved.accountId = some a ∧
          (∀ dim ∈ use.keys, 0 ≤ use.at dim ∧ use.at dim ≤ saved.amount.at dim) ∧
          l' = { accounts := l.accounts.modify saved.accountId (release saved.amount use)
                 reservations := l.reservations.modify key fun r =>
                   { r with state := .settled, actual := some use } }) := by
  obtain ⟨saved, hsaved, h⟩ := bind_eq_ok.mp h
  refine ⟨saved, orThrow_eq_ok.mp hsaved, ?_⟩
  split at h
  · rename_i settled
    simp only [bind_eq_ok, require_eq_ok, exists_const, Except.ok.injEq] at h
    obtain ⟨same, rfl⟩ := h
    exact .inl ⟨settled, same, rfl⟩
  rename_i open'
  split at h
  · cases h
    exact .inr (.inl ⟨open', rfl, rfl⟩)
  · simp only [account, bind_eq_ok, orThrow_eq_ok, require_eq_ok, exists_const,
      Except.ok.injEq] at h
    obtain ⟨a, ha, fits, rfl⟩ := h
    exact .inr (.inr ⟨open', _, a, rfl, ha, fits, rfl⟩)

/-! ## The law -/

structure Conserved (l : Ledger) : Prop where
  reserved : ∀ id a dim, l.accounts.get? id = some a →
    a.reserved dim = l.reservations.total (Reservation.held id dim)
  consumed : ∀ id a dim, l.accounts.get? id = some a →
    a.consumed dim = l.reservations.total (Reservation.used id dim)
  nonneg : ∀ key r dim, l.reservations.get? key = some r → 0 ≤ r.amount.at dim
  owned : ∀ key r, l.reservations.get? key = some r → ∃ a, l.accounts.get? r.accountId = some a
  within : ∀ key r a dim limit, l.reservations.get? key = some r →
    l.accounts.get? r.accountId = some a → dim ∈ r.amount → limit ∈ a.limits.lookup dim →
    a.reserved dim + a.consumed dim ≤ limit
  limited : ∀ id a dim limit, l.accounts.get? id = some a → limit ∈ a.limits.lookup dim →
    0 ≤ limit → a.reserved dim + a.consumed dim ≤ limit

theorem Conserved.empty : Ledger.empty.Conserved where
  reserved _ _ _ h := by cases h
  consumed _ _ _ h := by cases h
  nonneg _ _ _ h := by cases h
  owned _ _ h := by cases h
  within _ _ _ _ _ h := by cases h
  limited _ _ _ _ h := by cases h

/-- A table without rows of an account has no share of it. -/
theorem total_eq_zero {t : Table ReservationKey Reservation} {f : Reservation → Rat}
    (h : ∀ key r, t.get? key = some r → f r = 0) : t.total f = 0 := by
  refine List.sum_eq_zero fun x hx => ?_
  obtain ⟨e, he, rfl⟩ := List.mem_map.mp hx
  exact h e.1 e.2 (Table.mem_rows.mp he)

theorem Conserved.addAccount {id : RunId} {limits : Amount} (law : l.Conserved)
    (h : l.addAccount id limits = .ok l') : l'.Conserved := by
  obtain ⟨accounts, hinsert, rfl⟩ := addAccount_eq_ok h
  obtain ⟨absent, rows⟩ := Table.insert?_eq_some hinsert
  have unnamed : ∀ key r, l.reservations.get? key = some r → r.accountId ≠ id := by
    rintro key r hr rfl
    obtain ⟨a, ha⟩ := law.owned key r hr
    rw [absent] at ha
    cases ha
  constructor
  · intro id' a dim ha
    rw [rows] at ha
    split at ha
    · rename_i same
      subst same
      cases ha
      exact (total_eq_zero fun key r hr => Reservation.held_other (unnamed key r hr)).symm
    · exact law.reserved id' a dim ha
  · intro id' a dim ha
    rw [rows] at ha
    split at ha
    · rename_i same
      subst same
      cases ha
      exact (total_eq_zero fun key r hr => Reservation.used_other (unnamed key r hr)).symm
    · exact law.consumed id' a dim ha
  · exact law.nonneg
  · intro key r hr
    obtain ⟨a, ha⟩ := law.owned key r hr
    exact ⟨a, by rw [rows, if_neg (unnamed key r hr), ha]⟩
  · intro key r a dim limit hr ha
    rw [rows, if_neg (unnamed key r hr)] at ha
    exact law.within key r a dim limit hr ha
  · intro id' a dim limit ha hlimit positive
    rw [rows] at ha
    split at ha
    · cases ha
      simpa using positive
    · exact law.limited id' a dim limit ha hlimit positive

theorem Conserved.reserve {id : RunId} {key : ReservationKey} {items : Items}
    (law : l.Conserved) (h : l.reserve id key items = .ok l') : l'.Conserved := by
  rcases reserve_eq_ok h with ⟨-, -, -, -, rfl⟩ |
    ⟨a, reservations, ha, nonneg, within, hinsert, rfl⟩
  · exact law
  obtain ⟨absent, rows⟩ := Table.insert?_eq_some hinsert
  have held : ∀ id' dim, reservations.total (Reservation.held id' dim) =
      l.reservations.total (Reservation.held id' dim) + if id = id' then items.amount.at dim else 0 := by
    intro id' dim
    rw [Table.total_insert? hinsert]
    simp [Reservation.held]
  have used : ∀ id' dim, reservations.total (Reservation.used id' dim) =
      l.reservations.total (Reservation.used id' dim) := by
    intro id' dim
    rw [Table.total_insert? hinsert]
    simp [Reservation.used]
  constructor
  · intro id' a' dim ha'
    rw [Table.get?_modify] at ha'
    rw [held]
    split at ha'
    · rename_i same
      subst same
      obtain ⟨b, hb, rfl⟩ := Option.map_eq_some_iff.mp ha'
      simp [hold, law.reserved _ b dim hb]
    · rename_i other
      rw [if_neg (Ne.symm other), add_zero]
      exact law.reserved id' a' dim ha'
  · intro id' a' dim ha'
    rw [Table.get?_modify] at ha'
    rw [used]
    split at ha'
    · obtain ⟨b, hb, rfl⟩ := Option.map_eq_some_iff.mp ha'
      exact law.consumed id' b dim hb
    · exact law.consumed id' a' dim ha'
  · intro key' r dim hr
    rw [rows] at hr
    split at hr
    · cases hr
      by_cases mem : dim ∈ items.amount
      · exact nonneg dim (Finmap.mem_keys.mpr mem)
      · exact (Amount.at_of_not_mem mem).ge
    · exact law.nonneg key' r dim hr
  · intro key' r hr
    rw [rows] at hr
    split at hr
    · cases hr
      exact Table.get?_modify_some _ ha
    · obtain ⟨b, hb⟩ := law.owned key' r hr
      exact Table.get?_modify_some _ hb
  · intro key' r a' dim limit hr ha' mem hlimit
    rw [Table.get?_modify] at ha'
    split at ha'
    · rename_i same
      rw [same, ha] at ha'
      cases ha'
      by_cases named : dim ∈ items.amount
      · have := within dim (Finmap.mem_keys.mpr named) limit hlimit
        simp only [hold]
        linarith
      · rw [rows] at hr
        split at hr
        · cases hr
          exact absurd mem named
        · have := law.within key' r a dim limit hr (same ▸ ha) mem hlimit
          simpa [hold, Amount.at_of_not_mem named] using this
    · rename_i other
      rw [rows] at hr
      split at hr
      · cases hr
        exact absurd rfl other
      · exact law.within key' r a' dim limit hr ha' mem hlimit
  · intro id' a' dim limit ha' hlimit positive
    rw [Table.get?_modify] at ha'
    split at ha'
    · rename_i same
      rw [same, ha] at ha'
      cases ha'
      by_cases named : dim ∈ items.amount
      · have := within dim (Finmap.mem_keys.mpr named) limit hlimit
        simp only [hold]
        linarith
      · have := law.limited id a dim limit ha hlimit positive
        simpa [hold, Amount.at_of_not_mem named] using this
    · exact law.limited id' a' dim limit ha' hlimit positive

/-- A call that changes a reservation keeps its account and its amount. -/
theorem reservation_before {key key' : ReservationKey} {f : Reservation → Reservation}
    {r : Reservation} (h : (l.reservations.modify key f).get? key' = some r)
    (same : ∀ r, (f r).accountId = r.accountId ∧ (f r).amount = r.amount) :
    ∃ r₀, l.reservations.get? key' = some r₀ ∧ r.accountId = r₀.accountId ∧ r.amount = r₀.amount := by
  rw [Table.get?_modify] at h
  split at h
  · obtain ⟨r₀, hr₀, rfl⟩ := Option.map_eq_some_iff.mp h
    exact ⟨r₀, hr₀, same r₀⟩
  · exact ⟨r, h, rfl, rfl⟩

/-- A reservation whose outcome is unknown holds what it held. -/
theorem Conserved.unknown {key : ReservationKey} {saved : Reservation} (law : l.Conserved)
    (hsaved : l.reservations.get? key = some saved) (open' : saved.state ≠ .settled) :
    Conserved { l with
      reservations := l.reservations.modify key fun r => { r with state := .unknown } } := by
  have held : ∀ id dim, (l.reservations.modify key fun r => { r with state := .unknown }).total
      (Reservation.held id dim) = l.reservations.total (Reservation.held id dim) := by
    intro id dim
    refine Table.total_modify_of_eq fun r hr => ?_
    cases hsaved.symm.trans hr
    simp [Reservation.held, open']
  have used : ∀ id dim, (l.reservations.modify key fun r => { r with state := .unknown }).total
      (Reservation.used id dim) = l.reservations.total (Reservation.used id dim) := by
    intro id dim
    refine Table.total_modify_of_eq fun r hr => ?_
    cases hsaved.symm.trans hr
    simp [Reservation.used, open']
  constructor
  · intro id a dim ha
    rw [held]
    exact law.reserved id a dim ha
  · intro id a dim ha
    rw [used]
    exact law.consumed id a dim ha
  · intro key' r dim hr
    obtain ⟨r₀, hr₀, -, same⟩ := reservation_before hr fun _ => ⟨rfl, rfl⟩
    rw [same]
    exact law.nonneg key' r₀ dim hr₀
  · intro key' r hr
    obtain ⟨r₀, hr₀, owner, -⟩ := reservation_before hr fun _ => ⟨rfl, rfl⟩
    rw [owner]
    exact law.owned key' r₀ hr₀
  · intro key' r a dim limit hr ha mem
    obtain ⟨r₀, hr₀, owner, same⟩ := reservation_before hr fun _ => ⟨rfl, rfl⟩
    rw [owner] at ha
    rw [same] at mem
    exact law.within key' r₀ a dim limit hr₀ ha mem
  · exact law.limited

/-- A use within the amount is a use of its dimensions only. -/
theorem use_of_not_mem {amount use : Amount} {dim : Dimension}
    (fits : ∀ dim ∈ use.keys, 0 ≤ use.at dim ∧ use.at dim ≤ amount.at dim) (h : dim ∉ amount) :
    use.at dim = 0 := by
  by_cases mem : dim ∈ use
  · have bounds := fits dim (Finmap.mem_keys.mpr mem)
    rw [Amount.at_of_not_mem h] at bounds
    exact le_antisymm bounds.2 bounds.1
  · exact Amount.at_of_not_mem mem

/-- Settling gives back what is reserved and records what was used of it. -/
theorem Conserved.settled {key : ReservationKey} {saved : Reservation} {use : Amount}
    (law : l.Conserved) (hsaved : l.reservations.get? key = some saved)
    (open' : saved.state ≠ .settled)
    (fits : ∀ dim ∈ use.keys, 0 ≤ use.at dim ∧ use.at dim ≤ saved.amount.at dim) :
    Conserved {
      accounts := l.accounts.modify saved.accountId (release saved.amount use)
      reservations := l.reservations.modify key fun r =>
        { r with state := .settled, actual := some use } } := by
  have held : ∀ id dim, (l.reservations.modify key fun r =>
      { r with state := .settled, actual := some use }).total (Reservation.held id dim) =
      l.reservations.total (Reservation.held id dim) -
        if saved.accountId = id then saved.amount.at dim else 0 := by
    intro id dim
    have sum := Table.total_modify hsaved
      (fun r => { r with state := .settled, actual := some use }) (Reservation.held id dim)
    simp only [Reservation.held, open', not_true_eq_false, and_false, if_false, add_zero, ne_eq,
      not_false_eq_true, and_true] at sum ⊢
    linarith
  have used : ∀ id dim, (l.reservations.modify key fun r =>
      { r with state := .settled, actual := some use }).total (Reservation.used id dim) =
      l.reservations.total (Reservation.used id dim) +
        if saved.accountId = id then use.at dim else 0 := by
    intro id dim
    have sum := Table.total_modify hsaved
      (fun r => { r with state := .settled, actual := some use }) (Reservation.used id dim)
    simpa [Reservation.used, open'] using sum
  have share : ∀ dim, (if dim ∈ saved.amount then use.at dim else 0) = use.at dim := by
    intro dim
    split
    · rfl
    · exact (use_of_not_mem fits ‹_›).symm
  have below : ∀ dim, use.at dim ≤ saved.amount.at dim := by
    intro dim
    by_cases mem : dim ∈ use
    · exact (fits dim (Finmap.mem_keys.mpr mem)).2
    · rw [Amount.at_of_not_mem mem]
      exact law.nonneg key saved dim hsaved
  have account : ∀ {id a'}, (l.accounts.modify saved.accountId (release saved.amount use)).get? id =
      some a' → ∃ b, l.accounts.get? id = some b ∧ a'.limits = b.limits ∧
        (∀ dim, a'.reserved dim =
          b.reserved dim - if saved.accountId = id then saved.amount.at dim else 0) ∧
        ∀ dim, a'.consumed dim = b.consumed dim + if saved.accountId = id then use.at dim else 0 := by
    intro id a' ha'
    rw [Table.get?_modify] at ha'
    split at ha'
    · rename_i same
      obtain ⟨b, hb, rfl⟩ := Option.map_eq_some_iff.mp ha'
      exact ⟨b, hb, rfl, fun dim => by simp [release, same],
        fun dim => by simp [release, same, share]⟩
    · rename_i other
      exact ⟨a', ha', rfl, fun dim => by simp [Ne.symm other], fun dim => by simp [Ne.symm other]⟩
  constructor
  · intro id a' dim ha'
    obtain ⟨b, hb, -, reserved, -⟩ := account ha'
    rw [held, reserved, law.reserved id b dim hb]
  · intro id a' dim ha'
    obtain ⟨b, hb, -, -, consumed⟩ := account ha'
    rw [used, consumed, law.consumed id b dim hb]
  · intro key' r dim hr
    obtain ⟨r₀, hr₀, -, same⟩ := reservation_before hr fun _ => ⟨rfl, rfl⟩
    rw [same]
    exact law.nonneg key' r₀ dim hr₀
  · intro key' r hr
    obtain ⟨r₀, hr₀, owner, -⟩ := reservation_before hr fun _ => ⟨rfl, rfl⟩
    obtain ⟨b, hb⟩ := law.owned key' r₀ hr₀
    rw [owner]
    exact Table.get?_modify_some _ hb
  · intro key' r a' dim limit hr ha' mem hlimit
    obtain ⟨r₀, hr₀, owner, same⟩ := reservation_before hr fun _ => ⟨rfl, rfl⟩
    obtain ⟨b, hb, limits, reserved, consumed⟩ := account ha'
    rw [owner] at hb
    rw [same] at mem
    rw [limits] at hlimit
    have before := law.within key' r₀ b dim limit hr₀ hb mem hlimit
    rw [reserved, consumed]
    split
    · linarith [below dim]
    · simpa using before
  · intro id a' dim limit ha' hlimit positive
    obtain ⟨b, hb, limits, reserved, consumed⟩ := account ha'
    rw [limits] at hlimit
    have before := law.limited id b dim limit hb hlimit positive
    rw [reserved, consumed]
    split
    · linarith [below dim]
    · simpa using before

theorem Conserved.settle {key : ReservationKey} {actual : Option Amount} (law : l.Conserved)
    (h : l.settle key actual = .ok l') : l'.Conserved := by
  obtain ⟨saved, hsaved, ⟨-, -, rfl⟩ | ⟨open', -, rfl⟩ | ⟨open', use, a, -, -, fits, rfl⟩⟩ :=
    settle_eq_ok h
  · exact law
  · exact law.unknown hsaved open'
  · exact law.settled hsaved open' fits

/-! ## Runs of the ledger -/

/-- The calls of the ledger, with any arguments. -/
inductive Call where
  | addAccount (id : RunId) (limits : Amount)
  | reserve (id : RunId) (key : ReservationKey) (items : Items)
  | settle (key : ReservationKey) (actual : Option Amount)

/-- Perform a call. -/
def perform (l : Ledger) : Call → Except HarnessError Ledger
  | .addAccount id limits => l.addAccount id limits
  | .reserve id key items => l.reserve id key items
  | .settle key actual => l.settle key actual

/-- The ledger after a call: the transaction of a call that raises is rolled back. -/
def after (l : Ledger) (call : Call) : Ledger :=
  match l.perform call with
  | .ok l' => l'
  | .error _ => l

/-- The calls one after the other, in any order. -/
def calls : System Ledger Call where
  init l := l = .empty
  step l call l' := l' = l.after call

theorem after_cases (l : Ledger) (call : Call) :
    l.perform call = .ok (l.after call) ∨ l.after call = l := by
  unfold after
  split
  · exact .inl ‹_›
  · exact .inr rfl

theorem after_eq_of_error {call : Call} {e : HarnessError} (h : l.perform call = .error e) :
    l.after call = l := by
  simp [after, h]

theorem after_eq_of_ok {call : Call} (h : l.perform call = .ok l') : l.after call = l' := by
  simp [after, h]

theorem Conserved.after (law : l.Conserved) (call : Call) : (l.after call).Conserved := by
  rcases after_cases l call with h | h
  · cases call with
    | addAccount id limits => exact law.addAccount h
    | reserve id key amount => exact law.reserve h
    | settle key actual => exact law.settle h
  · rw [h]
    exact law

theorem reachable_conserved (h : calls.Reachable l) : l.Conserved := by
  refine h.invariant (I := Conserved) (fun l start => ?_) fun l call l' _ law step => ?_
  · cases show l = .empty from start
    exact .empty
  · cases show l' = l.after call from step
    exact law.after call

/-! ## What stays -/

/-- An account is never deleted and its limits never change. -/
theorem account_stays {id : RunId} {a : Account} (call : Call) (ha : l.accounts.get? id = some a) :
    ∃ a', (l.after call).accounts.get? id = some a' ∧ a'.limits = a.limits := by
  have modified : ∀ {id' : RunId} {g : Account → Account}, (∀ a, (g a).limits = a.limits) →
      ∃ a', (l.accounts.modify id' g).get? id = some a' ∧ a'.limits = a.limits := by
    intro id' g same
    rw [Table.get?_modify, ha]
    split
    · exact ⟨g a, rfl, same a⟩
    · exact ⟨a, rfl, rfl⟩
  rcases after_cases l call with h | h
  · cases call with
    | addAccount id' limits =>
        obtain ⟨accounts, hinsert, same⟩ := addAccount_eq_ok h
        obtain ⟨absent, rows⟩ := Table.insert?_eq_some hinsert
        refine ⟨a, ?_, rfl⟩
        rw [same, rows, if_neg, ha]
        rintro rfl
        rw [absent] at ha
        cases ha
    | reserve id' key amount =>
        rcases reserve_eq_ok h with ⟨-, -, -, -, same⟩ | ⟨_, _, -, -, -, -, same⟩
        · exact ⟨a, by rw [same, ha], rfl⟩
        · rw [same]
          exact modified fun _ => rfl
    | settle key actual =>
        obtain ⟨saved, -, ⟨-, -, same⟩ | ⟨-, -, same⟩ | ⟨-, _, _, -, -, -, same⟩⟩ := settle_eq_ok h
        · exact ⟨a, by rw [same, ha], rfl⟩
        · exact ⟨a, by rw [same, ha], rfl⟩
        · rw [same]
          exact modified fun _ => rfl
  · exact ⟨a, by rw [h, ha], rfl⟩

/-- How the row of a reservation may go on. -/
structure Later (r r' : Reservation) : Prop where
  account : r'.accountId = r.accountId
  amount : r'.amount = r.amount
  settled : r.state = .settled → r' = r
  marked : r.state = .unknown → r'.state ≠ .reserved

theorem Later.refl (r : Reservation) : Later r r :=
  ⟨rfl, rfl, fun _ => rfl, fun h => by simp [h]⟩

/-- A reservation is never deleted, and once settled it never changes. -/
theorem reservation_stays {key : ReservationKey} {r : Reservation} (call : Call)
    (hr : l.reservations.get? key = some r) :
    ∃ r', (l.after call).reservations.get? key = some r' ∧ Later r r' := by
  have modified : ∀ {key' : ReservationKey} {saved : Reservation} {g : Reservation → Reservation},
      l.reservations.get? key' = some saved → Later saved (g saved) →
      ∃ r', (l.reservations.modify key' g).get? key = some r' ∧ Later r r' := by
    intro key' saved g hsaved later
    rw [Table.get?_modify]
    split
    · rename_i same
      subst same
      cases hr.symm.trans hsaved
      exact ⟨g r, by rw [hr]; rfl, later⟩
    · exact ⟨r, hr, .refl r⟩
  rcases after_cases l call with h | h
  · cases call with
    | addAccount id' limits =>
        obtain ⟨accounts, -, same⟩ := addAccount_eq_ok h
        exact ⟨r, by rw [same, hr], .refl r⟩
    | reserve id' key' amount =>
        rcases reserve_eq_ok h with ⟨-, -, -, -, same⟩ | ⟨_, reservations, -, -, -, hinsert, same⟩
        · exact ⟨r, by rw [same, hr], .refl r⟩
        · obtain ⟨absent, rows⟩ := Table.insert?_eq_some hinsert
          refine ⟨r, ?_, .refl r⟩
          rw [same, rows, if_neg, hr]
          rintro rfl
          rw [absent] at hr
          cases hr
    | settle key' actual =>
        obtain ⟨saved, hsaved, ⟨-, -, same⟩ | ⟨open', -, same⟩ | ⟨open', use, _, -, -, -, same⟩⟩ :=
          settle_eq_ok h
        · exact ⟨r, by rw [same, hr], .refl r⟩
        · rw [same]
          exact modified hsaved ⟨rfl, rfl, fun e => absurd e open', fun _ => by simp⟩
        · rw [same]
          exact modified hsaved ⟨rfl, rfl, fun e => absurd e open', fun _ => by simp⟩
  · exact ⟨r, by rw [h, hr], .refl r⟩

/-- What a call made true of a reservation and every later call keeps. -/
theorem reservation_path {key : ReservationKey} {P : Reservation → Prop}
    (kept : ∀ r r', P r → Later r r' → P r') (p : calls.Path l l')
    (h : ∃ r, l.reservations.get? key = some r ∧ P r) :
    ∃ r, l'.reservations.get? key = some r ∧ P r := by
  induction p with
  | refl => exact h
  | tail _ step ih =>
      obtain ⟨r, hr, holds⟩ := ih
      cases step
      obtain ⟨r', hr', later⟩ := reservation_stays _ hr
      exact ⟨r', hr', kept r r' holds later⟩

/-! ## Repeated calls -/

/-- After an accepted `reserve` the key names the amount, whatever is called later. -/
theorem reserve_recorded {id : RunId} {key : ReservationKey} {items : Items}
    (h : l.reserve id key items = .ok l') :
    ∃ r, l'.reservations.get? key = some r ∧ r.accountId = id ∧ r.amount = items.amount := by
  rcases reserve_eq_ok h with ⟨saved, hsaved, owner, same, rfl⟩ |
    ⟨_, reservations, -, -, -, hinsert, rfl⟩
  · exact ⟨saved, hsaved, owner, same⟩
  · exact ⟨_, by rw [(Table.insert?_eq_some hinsert).2, if_pos rfl], rfl, rfl⟩

theorem reserve_again {id : RunId} {key : ReservationKey} {items : Items} {l'' : Ledger}
    (h : l.reserve id key items = .ok l') (p : calls.Path l' l'') :
    l''.reserve id key items = .ok l'' := by
  obtain ⟨r, hr, owner, same⟩ :=
    reservation_path (P := fun r => r.accountId = id ∧ r.amount = items.amount)
      (fun r r' now later => ⟨later.account.trans now.1, later.amount.trans now.2⟩) p
      (reserve_recorded h)
  unfold reserve
  rw [hr]
  dsimp only
  rw [require_pos _ ⟨owner, same⟩, ok_bind]

theorem settle_recorded {key : ReservationKey} {use : Amount}
    (h : l.settle key (some use) = .ok l') :
    ∃ r, l'.reservations.get? key = some r ∧ r.state = .settled ∧ r.actual = some use := by
  obtain ⟨saved, hsaved, ⟨settled, same, rfl⟩ | ⟨-, none, -⟩ | ⟨-, use', _, eq, -, -, rfl⟩⟩ :=
    settle_eq_ok h
  · exact ⟨saved, hsaved, settled, same⟩
  · cases none
  · cases eq
    exact ⟨_, by rw [Table.get?_modify_self, hsaved]; rfl, rfl, rfl⟩

theorem settle_again {key : ReservationKey} {use : Amount} {l'' : Ledger}
    (h : l.settle key (some use) = .ok l') (p : calls.Path l' l'') :
    l''.settle key (some use) = .ok l'' := by
  obtain ⟨r, hr, settled, same⟩ :=
    reservation_path (P := fun r => r.state = .settled ∧ r.actual = some use)
      (fun r r' now later => by rwa [later.settled now.1]) p (settle_recorded h)
  unfold settle
  rw [hr, orThrow, ok_bind, if_pos settled, require_pos _ same, ok_bind]

theorem unknown_recorded {key : ReservationKey} (h : l.settle key none = .ok l') :
    ∃ r, l'.reservations.get? key = some r ∧ r.state ≠ .reserved := by
  obtain ⟨saved, hsaved, ⟨settled, -, rfl⟩ | ⟨-, -, rfl⟩ | ⟨-, _, _, eq, -, -, -⟩⟩ := settle_eq_ok h
  · exact ⟨saved, hsaved, by simp [settled]⟩
  · exact ⟨_, by rw [Table.get?_modify_self, hsaved]; rfl, by simp⟩
  · cases eq

/-- An outcome once recorded as unknown is not recorded again, and not after it is known. -/
theorem unknown_again {key : ReservationKey} {l'' : Ledger} (h : l.settle key none = .ok l')
    (p : calls.Path l' l'') : l''.after (.settle key none) = l'' := by
  obtain ⟨r, hr, marked⟩ :=
    reservation_path (P := fun r => r.state ≠ .reserved)
      (fun r r' now later => by
        cases state : r.state with
        | reserved => exact absurd state now
        | unknown => exact later.marked state
        | settled => rw [later.settled state, state]; simp) p (unknown_recorded h)
  rcases after_cases l'' (.settle key none) with accepted | raised
  · obtain ⟨saved, hsaved, ⟨-, -, same⟩ | ⟨open', -, same⟩ | ⟨-, _, _, eq, -, -, -⟩⟩ :=
      settle_eq_ok accepted
    · exact same
    · cases hr.symm.trans hsaved
      have unknown : r.state = .unknown := by
        cases state : r.state with
        | reserved => exact absurd state marked
        | unknown => rfl
        | settled => exact absurd state open'
      have kept : l''.reservations.modify key (fun r => { r with state := .unknown }) =
          l''.reservations := by
        refine Table.modify_eq_self fun r' hr' => ?_
        cases hr.symm.trans hr'
        rw [← unknown]
      rw [same, kept]
    · cases eq
  · exact raised

/-- An accepted call, made again at any later time, changes nothing. -/
theorem repeated {call : Call} {l'' : Ledger} (accepted : l.perform call = .ok l')
    (budget : ∀ id limits, call ≠ .addAccount id limits) (p : calls.Path l' l'') :
    l''.after call = l'' := by
  cases call with
  | addAccount id limits => exact absurd rfl (budget id limits)
  | reserve id key amount => exact after_eq_of_ok (reserve_again accepted p)
  | settle key actual =>
      cases actual with
      | none => exact unknown_again accepted p
      | some use => exact after_eq_of_ok (settle_again accepted p)

/-! ## The ledger is conserved -/

/-- After an accepted `reserve` every dimension it names, and every dimension of a limit that
allows anything, stays within its limit. -/
theorem reserve_within {id : RunId} {key : ReservationKey} {items : Items} {l'' : Ledger}
    (law : l.Conserved) (h : l.reserve id key items = .ok l') (p : calls.Path l' l'') {a : Account}
    (ha : l''.accounts.get? id = some a) {dim : Dimension} {limit : Rat}
    (hlimit : limit ∈ a.limits.lookup dim) (named : dim ∈ items ∨ 0 ≤ limit) :
    a.reserved dim + a.consumed dim ≤ limit := by
  have law'' : l''.Conserved := by
    have law' := law.reserve h
    clear ha
    induction p with
    | refl => exact law'
    | tail _ step ih =>
        cases step
        exact ih.after _
  obtain ⟨r, hr, owner, same⟩ :=
    reservation_path (P := fun r => r.accountId = id ∧ r.amount = items.amount)
      (fun r r' now later => ⟨later.account.trans now.1, later.amount.trans now.2⟩) p
      (reserve_recorded h)
  rcases named with named | positive
  · exact law''.within key r a dim limit hr (owner ▸ ha) (same ▸ named) hlimit
  · exact law''.limited id a dim limit ha hlimit positive

end Ledger

/-- In every state of the ledger an account holds back what its unsettled reservations ask for
and has consumed what its settled ones have used.  An accepted `reserve` leaves every dimension
within its limit (one it does not name, if the limit is not negative), and no later call takes it
beyond.  An accepted `reserve` or
`settle`, made again at any later time, changes nothing, and neither does a call that raises. -/
theorem ledger_conserved {l : Ledger} (reach : Ledger.calls.Reachable l) :
    (∀ id a dim, l.accounts.get? id = some a →
      a.reserved dim =
          l.reservations.total (fun r =>
            if r.accountId = id ∧ r.state ≠ .settled then r.amount.at dim else 0) ∧
        a.consumed dim =
          l.reservations.total (fun r =>
            if r.accountId = id ∧ r.state = .settled then
              (r.actual.map fun actual => actual.at dim).getD 0
            else 0)) ∧
      (∀ id key items l' l'' a, l.reserve id key items = .ok l' → Ledger.calls.Path l' l'' →
        l''.accounts.get? id = some a → ∀ dim, ∀ limit ∈ a.limits.lookup dim,
          dim ∈ items ∨ 0 ≤ limit → a.reserved dim + a.consumed dim ≤ limit) ∧
      (∀ call l' l'', l.perform call = .ok l' → (∀ id limits, call ≠ .addAccount id limits) →
        Ledger.calls.Path l' l'' → l''.after call = l'') ∧
      ∀ call e, l.perform call = .error e → l.after call = l := by
  have law := Ledger.reachable_conserved reach
  refine ⟨fun id a dim ha => ⟨law.reserved id a dim ha, law.consumed id a dim ha⟩, ?_, ?_, ?_⟩
  · intro id key items l' l'' a accepted p ha dim limit hlimit named
    exact Ledger.reserve_within law accepted p ha hlimit named
  · intro call l' l'' accepted budget p
    exact Ledger.repeated accepted budget p
  · intro call e raised
    exact Ledger.after_eq_of_error raised

namespace Sample

/-- An account of ten tool calls, two of which are reserved three times over. -/
def held : Ledger :=
  [.addAccount 1 (Amount.single .toolCalls 10),
    .reserve 1 (.tool 7) (Items.single .toolCalls 3),
    .reserve 1 (.tool 8) (Items.single .toolCalls 3)].foldl Ledger.after .empty

/-- One of the two has used two calls. -/
def spent : Ledger := held.after (.settle (.tool 7) (some (Amount.single .toolCalls 2)))

theorem held_reachable : Ledger.calls.Reachable held :=
  have init : Ledger.calls.Reachable .empty := .init (show Ledger.empty = .empty from rfl)
  ((init.step rfl).step rfl).step rfl

theorem spent_reachable : Ledger.calls.Reachable spent := held_reachable.step rfl

end Sample

/-- The account of the sample holds back three calls and has consumed two, and settling the
first reservation again changes nothing. -/
theorem ledger_conserved_spent :
    (∀ a, Sample.spent.accounts.get? 1 = some a →
      a.reserved .toolCalls = Sample.spent.reservations.total (fun r =>
        if r.accountId = 1 ∧ r.state ≠ .settled then r.amount.at .toolCalls else 0)) ∧
      (Sample.spent.accounts.get? 1).map (fun a => (a.reserved .toolCalls, a.consumed .toolCalls)) =
        some (3, 2) ∧
      Sample.spent.after (.settle (.tool 7) (some (Amount.single .toolCalls 2))) = Sample.spent := by
  have spent := ledger_conserved Sample.spent_reachable
  have held := ledger_conserved Sample.held_reachable
  have accepted := (Ledger.after_cases Sample.held
    (.settle (.tool 7) (some (Amount.single .toolCalls 2)))).resolve_right fun same => by
      have consumed := congrArg (fun l => (l.accounts.get? 1).map (·.consumed .toolCalls)) same
      exact absurd consumed (by decide +kernel)
  refine ⟨fun a ha => (spent.1 1 a .toolCalls ha).1, by decide +kernel, ?_⟩
  exact held.2.2.1 (.settle (.tool 7) (some (Amount.single .toolCalls 2))) _ _ accepted
    (fun _ _ => nofun) .refl

end MiHarness

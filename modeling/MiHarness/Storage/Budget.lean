import Mathlib.Data.Finmap
import Mathlib.Data.Rat.Defs
import MiHarness.Core.Contracts
import MiHarness.Library.Checked
import MiHarness.Library.Table

/-!
# The budget ledger

Accounts with limits per dimension, and reservations that are later settled.  An amount is
a dictionary from dimensions to numbers; two amounts have the same canonical text exactly
when they are the same dictionary.

`reserve` and `settle` are each one transaction: they return the new ledger or refuse.
-/

namespace MiHarness

open Library

/-- The dimensions of `BudgetPolicy.limits`, and every other name. -/
inductive Dimension where
  | modelCalls | totalTokens | cost | toolCalls | children
  | named (name : String)
deriving DecidableEq, Repr

def Dimension.text : Dimension → String
  | .modelCalls => "model_calls"
  | .totalTokens => "total_tokens"
  | .cost => "cost"
  | .toolCalls => "tool_calls"
  | .children => "children"
  | .named name => name

/-- A dictionary from dimensions to numbers. -/
abbrev Amount := Finmap fun _ : Dimension => Rat

/-- The same with the order of its items. -/
abbrev Items := AList fun _ : Dimension => Rat

/-- `amount.get(dim, 0)`. -/
def Amount.at (amount : Amount) (dim : Dimension) : Rat := (amount.lookup dim).getD 0

/-- A dictionary with one entry. -/
def Amount.single (dim : Dimension) (value : Rat) : Amount := Finmap.singleton dim value

def Items.single (dim : Dimension) (value : Rat) : Items := AList.singleton dim value

/-- The dictionary without the order. -/
abbrev Items.amount (items : Items) : Amount := items.toFinmap

theorem Items.amount_single (dim : Dimension) (value : Rat) :
    (Items.single dim value).amount = Amount.single dim value := rfl

/-- What holds of every entry of a dictionary holds of every dimension with its number. -/
theorem Items.forall_entries {items : Items} {P : Dimension → Rat → Prop} :
    (∀ item ∈ items.entries, P item.1 item.2) ↔
      ∀ dim ∈ items.amount.keys, P dim (items.amount.at dim) := by
  constructor
  · intro each dim hdim
    obtain ⟨value, found⟩ := Finmap.mem_iff.mp (Finmap.mem_keys.mp hdim)
    rw [Amount.at, found]
    exact each ⟨dim, value⟩ (AList.mem_lookup_iff.mp found)
  · intro each item hitem
    have found : items.amount.lookup item.1 = some item.2 := AList.mem_lookup_iff.mpr hitem
    have named : item.1 ∈ items.amount := Finmap.mem_iff.mpr ⟨_, found⟩
    have fits := each item.1 (Finmap.mem_keys.mpr named)
    rw [Amount.at, found] at fits
    exact fits

theorem Amount.at_of_not_mem {amount : Amount} {dim : Dimension} (h : dim ∉ amount) :
    amount.at dim = 0 := by
  rw [Amount.at, Finmap.lookup_eq_none.mpr h]
  rfl

structure Account where
  limits : Amount
  consumed : Dimension → Rat := fun _ => 0
  reserved : Dimension → Rat := fun _ => 0

inductive ReservationState where
  | reserved | unknown | settled
deriving DecidableEq, Repr

structure Reservation where
  accountId : RunId
  amount : Amount
  actual : Option Amount := none
  state : ReservationState := .reserved

/-- `"tool:" + operation`, `"child:" + delegation key`, `"model:" + attempt`, and every other
text. -/
inductive ReservationKey where
  | tool (operation : OperationId)
  | child (key : OperationKey)
  | model (attempt : Nat)
  | named (text : String)
deriving DecidableEq, Repr

structure Ledger where
  accounts : Table RunId Account
  reservations : Table ReservationKey Reservation

namespace Ledger

def empty : Ledger := ⟨.empty, .empty⟩

def account (l : Ledger) (id : RunId) : Except HarnessError Account :=
  orThrow (l.accounts.get? id) { code := .noBudget, message := "预算账户不存在" }

def addAccount (l : Ledger) (id : RunId) (limits : Amount) : Except HarnessError Ledger := do
  let accounts ← orThrow (l.accounts.insert? id { limits })
    { code := .integrity, message := "UNIQUE constraint failed: budget_accounts.id" }
  .ok { l with accounts }

/-- Whether reserving `value` more in `dim` stays within the limit of the account. -/
def withinLimit (a : Account) (dim : Dimension) (value : Rat) : Prop :=
  ∀ limit ∈ a.limits.lookup dim, a.reserved dim + a.consumed dim + value ≤ limit

instance (a : Account) (dim : Dimension) (value : Rat) : Decidable (withinLimit a dim value) := by
  unfold withinLimit; infer_instance

/-- The turn of the loop over the items of an amount. -/
def checkItem (account : Account) (item : (_ : Dimension) × Rat) : Except HarnessError Unit := do
  require (0 ≤ item.2) { code := .valueError, message := "Negative reservation" }
  require (withinLimit account item.1 item.2)
    { code := .budgetExhausted, message := item.1.text ++ " 预算不足", status := 429 }

def reserve (l : Ledger) (accountId : RunId) (key : ReservationKey) (items : Items) :
    Except HarnessError Ledger := do
  let amount := items.amount
  match l.reservations.get? key with
  | some saved =>
      require (saved.accountId = accountId ∧ saved.amount = amount)
        { code := .reservationConflict, message := "同一预算预留键的内容发生变化" }
      .ok l
  | none =>
      let account ← l.account accountId
      items.entries.forM (checkItem account)
      let reservations ← orThrow (l.reservations.insert? key { accountId, amount })
        { code := .integrity, message := "UNIQUE constraint failed: budget_reservations.key" }
      .ok { accounts := l.accounts.modify accountId fun a =>
              { a with reserved := fun dim => a.reserved dim + amount.at dim }
            reservations }

def settle (l : Ledger) (key : ReservationKey) (actual : Option Amount) :
    Except HarnessError Ledger := do
  let saved ← orThrow (l.reservations.get? key)
    { code := .notFound, message := "预算预留不存在", status := 404 }
  if saved.state = .settled then
    require (saved.actual = actual)
      { code := .settlementConflict, message := "已结算用量不可覆盖" }
    .ok l
  else
    match actual with
    | none =>
        .ok { l with reservations := l.reservations.modify key fun r => { r with state := .unknown } }
    | some actual =>
        let _ ← l.account saved.accountId
        require (∀ dim ∈ actual.keys, 0 ≤ actual.at dim ∧ actual.at dim ≤ saved.amount.at dim)
          { code := .usageExceedsReservation, message := "用量超过预留，须核对，不能自动退款" }
        .ok { accounts := l.accounts.modify saved.accountId fun a =>
                { a with
                  reserved := fun dim => a.reserved dim - saved.amount.at dim
                  consumed := fun dim =>
                    a.consumed dim + if dim ∈ saved.amount then actual.at dim else 0 }
              reservations := l.reservations.modify key fun r =>
                { r with state := .settled, actual := some actual } }

end Ledger

end MiHarness

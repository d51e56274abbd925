import MiHarness.Core.Contracts
import MiHarness.Library.Checked
import MiHarness.Library.Table

/-!
# The table of records

Services that need no table of their own keep documents in `records`, each under a namespace
and a key and with a revision.  One `Records` is one namespace.
-/

namespace MiHarness

open Library

structure Record (α : Type) where
  revision : Nat
  payload : α
deriving DecidableEq, Repr

/-- The records of one namespace. -/
abbrev Records (κ α : Type) := Table κ (Record α)

variable {κ α : Type} [DecidableEq κ]

/-- `Store.get`. -/
def Records.get (records : Records κ α) (key : κ) : Option α :=
  (records.get? key).map Record.payload

/-- The revision that a writer expects, zero where there is no record. -/
def Records.revision (records : Records κ α) (key : κ) : Nat :=
  (records.get? key).elim 0 Record.revision

/-- `Store.compare_and_set`. -/
def Records.compareAndSet (records : Records κ α) (key : κ) (expected : Option Nat) (value : α) :
    Except HarnessError (Records κ α) := do
  let expected := expected.getD 0
  require (records.revision key = expected)
    { code := .revisionConflict, message := "记录已更新，请刷新后重试" }
  .ok (records.put key { revision := expected + 1, payload := value })

/-- `Store.put`. -/
def Records.write (records : Records κ α) (key : κ) (value : α) : Records κ α :=
  records.put key { revision := records.revision key + 1, payload := value }

@[simp] theorem Records.get_put (records : Records κ α) (key key' : κ) (record : Record α) :
    Records.get (records.put key record) key' =
      if key' = key then some record.payload else records.get key' := by
  rw [get, Table.get?_put]
  split
  · rfl
  · rfl

@[simp] theorem Records.get_write (records : Records κ α) (key key' : κ) (value : α) :
    Records.get (records.write key value) key' =
      if key' = key then some value else records.get key' := by
  rw [write, get_put]

theorem Records.revision_of_get {records : Records κ α} {key : κ} {record : Record α}
    (h : records.get? key = some record) : records.revision key = record.revision := by
  rw [revision, h]
  rfl

theorem Records.get_eq_some {records : Records κ α} {key : κ} {value : α} :
    records.get key = some value ↔ ∃ record, records.get? key = some record ∧ record.payload = value :=
  Option.map_eq_some_iff

theorem Records.revision_of_absent {records : Records κ α} {key : κ} (h : records.get key = none) :
    records.revision key = 0 := by
  rw [revision, Option.map_eq_none_iff.mp h]
  rfl

theorem Records.compareAndSet_eq_ok {records records' : Records κ α} {key : κ}
    {expected : Option Nat} {value : α} :
    records.compareAndSet key expected value = .ok records' ↔
      records.revision key = expected.getD 0 ∧
        records' = records.put key { revision := expected.getD 0 + 1, payload := value } := by
  simp only [compareAndSet, bind_eq_ok, require_eq_ok, exists_const, Except.ok.injEq]
  exact and_congr_right fun _ => eq_comm

end MiHarness

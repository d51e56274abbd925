import Mathlib.Data.List.Sort
import MiHarness.Storage.Records

/-!
# A namespace with versions

One namespace of `records` together with its part of `record_versions`, for services whose records have
keys and values of their own types.  `Storage.Versions` has both tables whole, and what may be written
after a record has been deleted is as there: the version that the write would add is there already.
-/

namespace MiHarness

open Library

/-- A namespace of `records` and its versions. -/
structure Versioned (κ α : Type) where
  records : Records κ α := Table.empty
  versions : Table (κ × Nat) α := .empty

namespace Versioned

variable {κ α : Type} [DecidableEq κ] {s s' : Versioned κ α} {k k' : κ} {value : α}

/-- `Store.get`. -/
def get (s : Versioned κ α) (k : κ) : Option α := s.records.get k

/-- The violation of the primary key of `record_versions`. -/
def versionExists : HarnessError :=
  { code := .integrity
    message := "UNIQUE constraint failed: record_versions.namespace, record_versions.key, " ++
      "record_versions.revision" }

/-- `Store.compare_and_set`. -/
def compareAndSet (s : Versioned κ α) (k : κ) (expected : Option Nat) (value : α) :
    Except HarnessError (Versioned κ α) := do
  let records ← s.records.compareAndSet k expected value
  let versions ← orThrow (s.versions.insert? (k, expected.getD 0 + 1) value) versionExists
  .ok { records, versions }

/-- `Store.put`. -/
def put (s : Versioned κ α) (k : κ) (value : α) : Except HarnessError (Versioned κ α) :=
  s.compareAndSet k (some (s.records.revision k)) value

/-- `Store.delete`. -/
def delete (s : Versioned κ α) (k : κ) : Versioned κ α :=
  { s with records := s.records.erase k }

/-- The records, `ORDER BY key`. -/
def list [LinearOrder κ] (s : Versioned κ α) : List α :=
  (s.records.rows.insertionSort fun a b => a.1 ≤ b.1).map fun e => e.2.payload

theorem compareAndSet_eq_ok {expected : Option Nat} : s.compareAndSet k expected value = .ok s' ↔
    s.records.revision k = expected.getD 0 ∧
      ∃ versions, s.versions.insert? (k, expected.getD 0 + 1) value = some versions ∧
        s' = ⟨s.records.put k { revision := expected.getD 0 + 1, payload := value }, versions⟩ := by
  simp only [compareAndSet, bind_eq_ok, orThrow_eq_ok, Except.ok.injEq]
  constructor
  · rintro ⟨records, hrecords, versions, hversions, rfl⟩
    obtain ⟨current, rfl⟩ := Records.compareAndSet_eq_ok.mp hrecords
    exact ⟨current, versions, hversions, rfl⟩
  · rintro ⟨current, versions, hversions, rfl⟩
    exact ⟨_, Records.compareAndSet_eq_ok.mpr ⟨current, rfl⟩, versions, hversions, rfl⟩

/-- What a write that succeeds has found, and what it has done. -/
structure Wrote (s : Versioned κ α) (k : κ) (revision : Nat) (value : α) (s' : Versioned κ α) : Prop where
  current : s.records.revision k = revision
  free : s.versions.get? (k, revision + 1) = none
  records : ∀ k', s'.records.get? k' =
    if k' = k then some { revision := revision + 1, payload := value } else s.records.get? k'
  versions : ∀ k' revision', s'.versions.get? (k', revision') =
    if k' = k ∧ revision' = revision + 1 then some value else s.versions.get? (k', revision')

theorem wrote_of_compareAndSet {expected : Option Nat} (h : s.compareAndSet k expected value = .ok s') :
    s.Wrote k (expected.getD 0) value s' := by
  obtain ⟨current, versions, inserted, rfl⟩ := compareAndSet_eq_ok.mp h
  refine ⟨current, (Table.insert?_eq_some inserted).1, fun k' => Table.get?_put .., fun k' revision' => ?_⟩
  rw [(Table.insert?_eq_some inserted).2]
  simp only [Prod.mk.injEq]

theorem wrote_of_put (h : s.put k value = .ok s') : s.Wrote k (s.records.revision k) value s' :=
  wrote_of_compareAndSet h

theorem compareAndSet_of_free {expected : Option Nat} (current : s.records.revision k = expected.getD 0)
    (free : s.versions.get? (k, expected.getD 0 + 1) = none) (value : α) :
    ∃ s', s.compareAndSet k expected value = .ok s' := by
  obtain ⟨versions, inserted⟩ := Table.insert?_of_fresh value free
  exact ⟨_, compareAndSet_eq_ok.mpr ⟨current, versions, inserted, rfl⟩⟩

/-- The key has never been written. -/
def Absent (s : Versioned κ α) (k : κ) : Prop :=
  s.records.get? k = none ∧ ∀ revision, s.versions.get? (k, revision) = none

/-- What is stored is stored as it was. -/
structure Keeps (s s' : Versioned κ α) : Prop where
  records : ∀ k record, s.records.get? k = some record → s'.records.get? k = some record
  versions : ∀ key value, s.versions.get? key = some value → s'.versions.get? key = some value

theorem Keeps.refl (s : Versioned κ α) : s.Keeps s := ⟨fun _ _ h => h, fun _ _ h => h⟩

theorem Keeps.trans {s'' : Versioned κ α} (first : s.Keeps s') (second : s'.Keeps s'') : s.Keeps s'' :=
  ⟨fun k record h => second.records k record (first.records k record h),
    fun key value h => second.versions key value (first.versions key value h)⟩

theorem Keeps.get (keeps : s.Keeps s') (found : s.get k = some value) : s'.get k = some value := by
  obtain ⟨record, row, rfl⟩ := Records.get_eq_some.mp found
  exact Records.get_eq_some.mpr ⟨record, keeps.records k record row, rfl⟩

theorem Wrote.keeps_versions {revision : Nat} (wrote : s.Wrote k revision value s') {key : κ × Nat}
    {value' : α} (h : s.versions.get? key = some value') : s'.versions.get? key = some value' := by
  rw [wrote.versions, if_neg, h]
  rintro ⟨same, next⟩
  have free := wrote.free
  rw [← next, ← same, h] at free
  cases free

/-- What a write does to the records that are read. -/
theorem Wrote.get_eq {revision : Nat} (wrote : s.Wrote k revision value s') (k' : κ) :
    s'.get k' = if k' = k then some value else s.get k' := by
  rw [get, get, Records.get, Records.get, wrote.records]
  split
  · rfl
  · rfl

theorem Wrote.get {revision : Nat} (wrote : s.Wrote k revision value s') : s'.get k = some value :=
  (wrote.get_eq k).trans (if_pos rfl)

/-- A write of a key that is new. -/
theorem Wrote.keeps {revision : Nat} (wrote : s.Wrote k revision value s') (absent : s.Absent k) :
    s.Keeps s' := by
  refine ⟨fun k' record h => ?_, fun key value' h => wrote.keeps_versions h⟩
  rw [wrote.records, if_neg, h]
  rintro rfl
  cases absent.1.symm.trans h

theorem Absent.other {revision : Nat} (absent : s.Absent k') (wrote : s.Wrote k revision value s')
    (other : k' ≠ k) : s'.Absent k' :=
  ⟨by rw [wrote.records, if_neg other, absent.1],
    fun revision' => by rw [wrote.versions, if_neg fun h => other h.1, absent.2]⟩

@[simp] theorem get_delete (s : Versioned κ α) (k k' : κ) :
    (s.delete k).get k' = if k' = k then none else s.get k' := by
  rw [get, delete, Records.get, Table.get?_erase]
  split
  · rfl
  · rfl

theorem put_get (h : s.put k value = .ok s') (k' : κ) :
    s'.get k' = if k' = k then some value else s.get k' :=
  (wrote_of_put h).get_eq k'

theorem mem_list [LinearOrder κ] {a : α} : a ∈ s.list ↔ ∃ k, s.get k = some a := by
  rw [list, List.mem_map]
  constructor
  · rintro ⟨⟨k, record⟩, hmem, rfl⟩
    have row := Table.mem_rows.mp ((List.mem_insertionSort _).mp hmem)
    exact ⟨k, by rw [get, Records.get, row]; rfl⟩
  · rintro ⟨k, h⟩
    obtain ⟨record, row, rfl⟩ := Records.get_eq_some.mp h
    exact ⟨(k, record), (List.mem_insertionSort _).mpr (Table.mem_rows.mpr row), rfl⟩

end Versioned

end MiHarness

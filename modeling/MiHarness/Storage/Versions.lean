import MiHarness.Storage.Records
import MiHarness.Library.System

/-!
# The versions of records

Every write of a record of a versioned namespace also adds a row to `record_versions`, under the
revision it has written.  Deleting a record leaves its versions, and a record that is created again
starts at revision 1, whose version is there already: the write is refused.  A key without a record
that has a version is `Deleted`, and exactly the writes to such keys are refused although their
revision is the current one.
-/

namespace MiHarness

open Library

structure RecordKey where
  namespaceName : String
  key : String
deriving DecidableEq, Repr

/-- The namespaces whose records have no versions. -/
def unversioned : List String := ["system", "process_sessions", "model_permits", "metrics"]

def RecordKey.versioned (k : RecordKey) : Prop := k.namespaceName ∉ unversioned

instance (k : RecordKey) : Decidable k.versioned := inferInstanceAs (Decidable (_ ∉ _))

/-- The tables `records` and `record_versions`. -/
structure RecordStore (α : Type) where
  records : Records RecordKey α := .empty
  versions : Table (RecordKey × Nat) α := .empty

namespace RecordStore

variable {α : Type} {s s' t : RecordStore α} {k k' : RecordKey} {value : α} {expected : Option Nat}

/-- `Store.get`. -/
def get (s : RecordStore α) (k : RecordKey) : Option α := s.records.get k

/-- `Store.get_version`. -/
def getVersion (s : RecordStore α) (k : RecordKey) (revision : Nat) : Option α :=
  s.versions.get? (k, revision)

/-- The violation of the primary key of `record_versions`. -/
def versionExists : HarnessError :=
  { code := .integrity
    message := "UNIQUE constraint failed: record_versions.namespace, record_versions.key, " ++
      "record_versions.revision" }

/-- `Store.compare_and_set`. -/
def compareAndSet (s : RecordStore α) (k : RecordKey) (expected : Option Nat) (value : α) :
    Except HarnessError (RecordStore α) := do
  let records ← s.records.compareAndSet k expected value
  if k.versioned then
    let versions ← orThrow (s.versions.insert? (k, expected.getD 0 + 1) value) versionExists
    .ok { records, versions }
  else .ok { s with records }

/-- `Store.put`. -/
def put (s : RecordStore α) (k : RecordKey) (value : α) : Except HarnessError (RecordStore α) :=
  s.compareAndSet k (some (s.records.revision k)) value

/-- `Store.delete`. -/
def delete (s : RecordStore α) (k : RecordKey) : RecordStore α :=
  { s with records := s.records.erase k }

end RecordStore

inductive RecordAction (α : Type) where
  | put (k : RecordKey) (value : α)
  | compareAndSet (k : RecordKey) (expected : Option Nat) (value : α)
  | delete (k : RecordKey)

namespace RecordStore

variable {α : Type} {s s' t : RecordStore α} {k k' : RecordKey} {value : α} {expected : Option Nat}

/-- The transaction of an action. -/
def perform (s : RecordStore α) : RecordAction α → Except HarnessError (RecordStore α)
  | .put k value => s.put k value
  | .compareAndSet k expected value => s.compareAndSet k expected value
  | .delete k => .ok (s.delete k)

/-- The store after an action: a transaction that raises is rolled back. -/
def after (s : RecordStore α) (a : RecordAction α) : RecordStore α :=
  match s.perform a with
  | .ok s' => s'
  | .error _ => s

end RecordStore

/-- The records of an installation under any sequence of writes. -/
def recordSystem (α : Type) : System (RecordStore α) (RecordAction α) :=
  .ofNext (· = {}) fun s a => some (s.after a)

namespace RecordStore

variable {α : Type} {s s' t : RecordStore α} {k k' : RecordKey} {value : α} {expected : Option Nat}

/-- The record of the key has been deleted, and its versions are there. -/
def Deleted (s : RecordStore α) (k : RecordKey) : Prop :=
  s.records.get? k = none ∧ ∃ revision value, s.versions.get? (k, revision) = some value

/-- What the actions of a run have last made of a key. -/
def lastWritten (k : RecordKey) : List (RecordStore α × RecordAction α) → Option α
  | [] => none
  | (s, a) :: past =>
      match a, s.perform a with
      | .put k' value, .ok _ | .compareAndSet k' _ value, .ok _ =>
          if k' = k then some value else lastWritten k past
      | .delete k', .ok _ => if k' = k then none else lastWritten k past
      | _, .error _ => lastWritten k past

/-! ## A write -/

/-- A write that succeeds has the current revision, and adds the version of the next one. -/
theorem compareAndSet_eq_ok (versioned : k.versioned) :
    s.compareAndSet k expected value = .ok s' ↔ s.records.revision k = expected.getD 0 ∧
      s.versions.get? (k, expected.getD 0 + 1) = none ∧
      ∃ versions, s.versions.insert? (k, expected.getD 0 + 1) value = some versions ∧
        s' = ⟨s.records.put k { revision := expected.getD 0 + 1, payload := value }, versions⟩ := by
  simp only [compareAndSet, bind_eq_ok, if_pos versioned, orThrow_eq_ok, Except.ok.injEq]
  constructor
  · rintro ⟨records, hrecords, versions, hversions, rfl⟩
    obtain ⟨current, rfl⟩ := Records.compareAndSet_eq_ok.mp hrecords
    exact ⟨current, (Table.insert?_eq_some hversions).1, versions, hversions, rfl⟩
  · rintro ⟨current, -, versions, hversions, rfl⟩
    exact ⟨_, Records.compareAndSet_eq_ok.mpr ⟨current, rfl⟩, versions, hversions, rfl⟩

/-- What a write does to the other rows, and to the rows of its key. -/
theorem compareAndSet_changes (h : s.compareAndSet k expected value = .ok s') :
    (∀ k', s'.records.get? k' =
      if k' = k then some { revision := expected.getD 0 + 1, payload := value }
      else s.records.get? k') ∧
    (∀ k' revision, s'.versions.get? (k', revision) =
      if k' = k ∧ revision = expected.getD 0 + 1 ∧ k.versioned then some value
      else s.versions.get? (k', revision)) := by
  by_cases versioned : k.versioned
  · obtain ⟨-, -, versions, hversions, rfl⟩ := (compareAndSet_eq_ok versioned).mp h
    refine ⟨fun k' => Table.get?_put .., fun k' revision => ?_⟩
    rw [(Table.insert?_eq_some hversions).2]
    simp only [Prod.mk.injEq, versioned, and_true]
  · simp only [compareAndSet, bind_eq_ok, if_neg versioned, Except.ok.injEq] at h
    obtain ⟨records, hrecords, rfl⟩ := h
    obtain ⟨-, rfl⟩ := Records.compareAndSet_eq_ok.mp hrecords
    refine ⟨fun k' => Table.get?_put .., fun k' revision => ?_⟩
    rw [if_neg fun h => versioned h.2.2]

/-! ## The tables in step -/

/-- The two tables of a versioned key are in step. -/
structure InStep (s : RecordStore α) (k : RecordKey) : Prop where
  current : ∀ record, s.records.get? k = some record →
    s.versions.get? (k, record.revision) = some record.payload
  latest : ∀ record revision value, s.records.get? k = some record →
    s.versions.get? (k, revision) = some value → revision ≤ record.revision
  first : ∀ revision value, s.versions.get? (k, revision) = some value →
    ∃ value', s.versions.get? (k, 1) = some value'

theorem InStep.write (inStep : s.InStep k) (versioned : k.versioned)
    (h : s.compareAndSet k' expected value = .ok s') : s'.InStep k := by
  obtain ⟨records, versions⟩ := compareAndSet_changes h
  by_cases same : k = k'
  · subst same
    obtain ⟨revised, -, -⟩ := (compareAndSet_eq_ok versioned).mp h
    refine ⟨fun record hrecord => ?_, fun record revision value' hrecord hvalue => ?_,
      fun revision value' hvalue => ?_⟩
    · rw [records, if_pos rfl] at hrecord
      cases hrecord
      rw [versions, if_pos ⟨rfl, rfl, versioned⟩]
    · rw [records, if_pos rfl] at hrecord
      cases hrecord
      rw [versions] at hvalue
      split at hvalue
      · rename_i new
        exact new.2.1.le
      · cases hold : s.records.get? k with
        | some old =>
            have := inStep.latest old revision value' hold hvalue
            rw [Records.revision, hold] at revised
            exact this.trans (Nat.le_succ_of_le revised.le)
        | none =>
            obtain ⟨value₁, first⟩ := inStep.first revision value' hvalue
            rw [Records.revision, hold] at revised
            obtain ⟨-, absent, -⟩ := (compareAndSet_eq_ok versioned).mp h
            rw [← revised] at absent
            cases first.symm.trans absent
    · by_cases start : expected.getD 0 = 0
      · exact ⟨value, by rw [versions, if_pos ⟨rfl, by omega, versioned⟩]⟩
      · rw [versions] at hvalue
        have old : ∃ record, s.records.get? k = some record := by
          cases hold : s.records.get? k with
          | some old => exact ⟨old, rfl⟩
          | none =>
              rw [Records.revision, hold] at revised
              exact absurd revised.symm start
        obtain ⟨record, hrecord⟩ := old
        obtain ⟨value₁, first⟩ := inStep.first _ _ (inStep.current record hrecord)
        exact ⟨value₁, by rw [versions, if_neg fun h => start (by omega)]; exact first⟩
  · have kept : s'.records.get? k = s.records.get? k := by rw [records, if_neg same]
    have keptVersions : ∀ revision, s'.versions.get? (k, revision) = s.versions.get? (k, revision) :=
      fun revision => by rw [versions, if_neg fun h => same h.1]
    refine ⟨fun record hrecord => ?_, fun record revision value' hrecord hvalue => ?_,
      fun revision value' hvalue => ?_⟩
    · rw [keptVersions]
      exact inStep.current record (kept ▸ hrecord)
    · exact inStep.latest record revision value' (kept ▸ hrecord) (keptVersions revision ▸ hvalue)
    · rw [keptVersions]
      exact inStep.first revision value' (keptVersions revision ▸ hvalue)

theorem InStep.delete (inStep : s.InStep k) (k' : RecordKey) : (s.delete k').InStep k := by
  have kept : ∀ record, (s.delete k').records.get? k = some record → s.records.get? k = some record := by
    intro record hrecord
    have removed := Table.get?_erase s.records k' k
    split at removed
    · cases hrecord.symm.trans removed
    · exact removed.symm.trans hrecord
  exact ⟨fun record h => inStep.current record (kept record h),
    fun record revision value h => inStep.latest record revision value (kept record h), inStep.first⟩

/-- What an action does: it is refused and changes nothing, it writes, or it deletes. -/
theorem after_cases (s : RecordStore α) (a : RecordAction α) :
    (s.after a = s ∧ ∃ e, s.perform a = .error e) ∨
    (∃ k expected value, s.compareAndSet k expected value = .ok (s.after a) ∧
      ((a = .put k value ∧ expected = some (s.records.revision k)) ∨
        a = .compareAndSet k expected value) ∧ s.perform a = .ok (s.after a)) ∨
    (∃ k, a = .delete k ∧ s.after a = s.delete k) := by
  cases hperform : s.perform a with
  | error e => exact .inl ⟨by rw [after, hperform], e, rfl⟩
  | ok s' =>
      have same : s.after a = s' := by rw [after, hperform]
      cases a with
      | put k value => exact .inr (.inl ⟨k, _, value, same ▸ hperform, .inl ⟨rfl, rfl⟩, same ▸ rfl⟩)
      | compareAndSet k expected value =>
          exact .inr (.inl ⟨k, expected, value, same ▸ hperform, .inr rfl, same ▸ rfl⟩)
      | delete k =>
          cases hperform
          exact .inr (.inr ⟨k, rfl, same⟩)

theorem InStep.after (inStep : s.InStep k) (versioned : k.versioned) (a : RecordAction α) :
    (s.after a).InStep k := by
  rcases s.after_cases a with ⟨same, -⟩ | ⟨k', expected, value, h, -⟩ | ⟨k', -, h⟩
  · rw [same]
    exact inStep
  · exact inStep.write versioned h
  · rw [h]
    exact inStep.delete k'

theorem reachable_inStep (h : (recordSystem α).Reachable s) (versioned : k.versioned) :
    s.InStep k := by
  refine h.invariant (I := fun s => s.InStep k) (fun s start => ?_) fun s a s' _ inStep step => ?_
  · cases start
    exact ⟨fun _ h => (by cases h), fun _ _ _ h => (by cases h), fun _ _ h => (by cases h)⟩
  · cases step
    exact inStep.after versioned a

/-! ## The results -/

/-- A version that has been stored stays. -/
theorem version_kept (versioned : k.versioned) {revision : Nat}
    (h : s.versions.get? (k, revision) = some value) (a : RecordAction α) :
    (s.after a).versions.get? (k, revision) = some value := by
  rcases s.after_cases a with ⟨same, -⟩ | ⟨k', expected, value', hwrite, -⟩ | ⟨k', -, deleted⟩
  · rw [same, h]
  · rw [(compareAndSet_changes hwrite).2, if_neg ?_, h]
    rintro ⟨rfl, rfl, -⟩
    obtain ⟨-, absent, -⟩ := (compareAndSet_eq_ok versioned).mp hwrite
    cases h.symm.trans absent
  · rw [deleted, delete, h]

/-- `get` reads what the actions have last written and not deleted. -/
theorem get_lastWritten {past : List (RecordStore α × RecordAction α)}
    (h : (recordSystem α).History past s) (k : RecordKey) : s.get k = lastWritten k past := by
  refine h.invariant (I := fun past s => s.get k = lastWritten k past) (fun s start => ?_)
    fun past s a s' _ ih step => ?_
  · cases start
    rfl
  · cases step
    rcases s.after_cases a with ⟨same, e, refused⟩ | ⟨k', expected, value, hwrite, written, performed⟩ |
      ⟨k', rfl, deleted⟩
    · rw [same, ih]
      cases a <;> simp [lastWritten, refused]
    · have read : (s.after a).get k = if k' = k then some value else s.get k := by
        rw [get, Records.get, (compareAndSet_changes hwrite).1]
        split
        · rename_i same
          rw [if_pos same.symm]
          rfl
        · rename_i other
          rw [if_neg fun same => other same.symm]
          rfl
      rw [read, ih]
      rcases written with ⟨rfl, -⟩ | rfl
      · simp only [lastWritten, performed]
      · simp only [lastWritten, performed]
    · have read : (s.delete k').get k = if k' = k then none else s.get k := by
        rw [get, Records.get, delete, Table.get?_erase]
        split
        · rename_i same
          rw [if_pos same.symm]
          rfl
        · rename_i other
          rw [if_neg fun same => other same.symm]
          rfl
      rw [deleted, read, ih]
      simp only [lastWritten, perform]

/-- A key without a record is at revision zero, and its versions start at one. -/
theorem InStep.fresh (inStep : s.InStep k) : s.versions.get? (k, s.records.revision k + 1) = none ↔
    ¬s.Deleted k := by
  cases hold : s.records.get? k with
  | some record =>
      have absent : s.versions.get? (k, record.revision + 1) = none := by
        cases hnext : s.versions.get? (k, record.revision + 1) with
        | none => rfl
        | some value => exact absurd (inStep.latest record _ value hold hnext) (Nat.not_succ_le_self _)
      have live : ¬s.Deleted k := fun deleted => by cases hold.symm.trans deleted.1
      rw [Records.revision, hold]
      exact iff_of_true absent live
  | none =>
      rw [Records.revision, hold]
      constructor
      · rintro absent ⟨-, revision, value, h⟩
        obtain ⟨value', first⟩ := inStep.first revision value h
        cases first.symm.trans absent
      · intro live
        cases hfirst : s.versions.get? (k, 1) with
        | none => exact hfirst
        | some value => exact absurd ⟨hold, 1, value, hfirst⟩ live

/-- A write of a versioned key succeeds exactly when its revision is the current one and the record
of the key has not been deleted. -/
theorem InStep.writes (inStep : s.InStep k) (versioned : k.versioned) (expected : Option Nat)
    (value : α) : (∃ s', s.compareAndSet k expected value = .ok s') ↔
      s.records.revision k = expected.getD 0 ∧ ¬s.Deleted k := by
  constructor
  · rintro ⟨s', h⟩
    obtain ⟨current, absent, -⟩ := (compareAndSet_eq_ok versioned).mp h
    exact ⟨current, inStep.fresh.mp (current ▸ absent)⟩
  · rintro ⟨current, live⟩
    have absent : s.versions.get? (k, expected.getD 0 + 1) = none := current ▸ inStep.fresh.mpr live
    obtain ⟨versions, hversions⟩ := Table.insert?_of_fresh value absent
    exact ⟨_, (compareAndSet_eq_ok versioned).mpr ⟨current, absent, versions, hversions, rfl⟩⟩

end RecordStore

/-- In every run, of a key of a versioned namespace: a write with the current revision succeeds
exactly when the record has not been deleted; `get` reads what was last written and not deleted;
the version of the current revision is the record; a version once stored stays; and an action
that is refused changes nothing. -/
theorem records_versioned {α : Type} {past : List (RecordStore α × RecordAction α)}
    {s : RecordStore α} (h : (recordSystem α).History past s) {k : RecordKey}
    (versioned : k.versioned) :
    (∀ value, (∃ s', s.put k value = .ok s') ↔ ¬s.Deleted k) ∧
    (∀ expected value, (∃ s', s.compareAndSet k expected value = .ok s') ↔
      s.records.revision k = expected.getD 0 ∧ ¬s.Deleted k) ∧
    s.get k = RecordStore.lastWritten k past ∧
    (∀ record, s.records.get? k = some record → s.getVersion k record.revision = s.get k) ∧
    (∀ t revision value, (recordSystem α).Path s t → s.getVersion k revision = some value →
      t.getVersion k revision = some value) ∧
    ∀ a e, s.perform a = .error e → s.after a = s := by
  have inStep := RecordStore.reachable_inStep h.reachable versioned
  refine ⟨fun value => ?_, inStep.writes versioned, RecordStore.get_lastWritten h k,
    fun record hrecord => ?_, fun t revision value path hvalue => ?_, fun a e refused => ?_⟩
  · rw [RecordStore.put, inStep.writes versioned]
    exact and_iff_right rfl
  · rw [RecordStore.getVersion, inStep.current record hrecord, RecordStore.get, Records.get, hrecord]
    rfl
  · refine path.stable (P := fun t => t.getVersion k revision = some value)
      (fun t a t' _ kept step => ?_) h.reachable hvalue
    cases step
    exact RecordStore.version_kept versioned kept a
  · rw [RecordStore.after, refused]

namespace Sample

def connector : RecordKey := ⟨"config/mcp", "files"⟩

end Sample

/-- A record is written twice. -/
theorem records_versioned_twice : ∃ s : RecordStore Json, s.get Sample.connector = some "second" ∧
    s.getVersion Sample.connector 1 = some "first" ∧ ∃ s', s.put Sample.connector "third" = .ok s' := by
  let first : RecordAction Json := .put Sample.connector "first"
  let second : RecordAction Json := .put Sample.connector "second"
  have start : (recordSystem Json).History [] {} := .init rfl
  have history := (start.step (a := first) rfl).step (a := second) rfl
  have versioned : Sample.connector.versioned := by decide
  obtain ⟨puts, -, read, -, -, -⟩ := records_versioned history versioned
  refine ⟨_, read.trans (by decide), by decide, (puts "third").mpr ?_⟩
  intro deleted
  exact absurd deleted.1 (by decide)

/-- A record that has been deleted cannot be put again. -/
theorem records_not_recreated : ¬∀ (past : List (RecordStore Json × RecordAction Json))
    (s : RecordStore Json), (recordSystem Json).History past s → ∀ k : RecordKey, k.versioned →
    ∀ value, ∃ s', s.put k value = .ok s' := by
  intro accepted
  have start : (recordSystem Json).History [] {} := .init rfl
  have history := (start.step (a := .put Sample.connector "first") rfl).step
    (a := .delete Sample.connector) rfl
  obtain ⟨s', h⟩ := accepted _ _ history Sample.connector (by decide) "again"
  have refused : (RecordStore.put (RecordStore.after (RecordStore.after {}
      (.put Sample.connector "first")) (.delete Sample.connector)) Sample.connector
      ("again" : Json)).toOption.isSome = false := by decide
  rw [h] at refused
  cases refused

end MiHarness

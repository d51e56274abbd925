import MiHarness.Storage.Records

/-!
# The context pointer of a thread

`context_pointer` holds, for each graph thread, the input revision its last model context was
composed for and the summary that is active.  A composition for an older input is refused.
-/

namespace MiHarness

open Library

abbrev SummaryId := Nat

structure ContextPointer where
  revision : Nat
  inputRevision : Nat
  summaryRef : Option SummaryId := none
deriving DecidableEq, Repr

abbrev ContextPointers := Records ThreadKey ContextPointer

/-- The refusal of an input that a later one has replaced. -/
def staleContextInput : HarnessError :=
  { code := .staleContextInput, message := "The model input revision has been superseded" }

/-- `ContextService._pointer`, for the thread and the input revision of a context. -/
def contextPointer (pointers : ContextPointers) (thread : ThreadKey) (inputRevision : Nat) :
    Except HarnessError (ContextPointer × ContextPointers) := do
  let pointers ← match pointers.get thread with
    | some _ => .ok pointers
    | none => pointers.compareAndSet thread none { revision := 1, inputRevision }
  let current ← orThrow (pointers.get thread)
    { code := .valueError, message := "'NoneType' object is not subscriptable" }
  require (current.inputRevision ≤ inputRevision) staleContextInput
  if current.inputRevision < inputRevision then
    let updated := { current with inputRevision, revision := current.revision + 1 }
    let pointers ← pointers.compareAndSet thread (some current.revision) updated
    .ok (updated, pointers)
  else .ok (current, pointers)

/-- The end of `ContextService._compact`: the summary becomes the active one. -/
def activateSummary (pointers : ContextPointers) (thread : ThreadKey)
    (contextRevision inputRevision : Nat) (summary : SummaryId) :
    Except HarnessError ContextPointers :=
  pointers.compareAndSet thread (some contextRevision)
    { revision := contextRevision + 1, inputRevision, summaryRef := some summary }

/-- A pointer carries the revision of its record. -/
def ContextPointers.Revised (pointers : ContextPointers) : Prop :=
  ∀ thread record, pointers.get? thread = some record → record.payload.revision = record.revision

variable {pointers pointers' : ContextPointers} {thread : ThreadKey} {inputRevision : Nat}

theorem ContextPointers.Revised.put (revised : pointers.Revised) (thread : ThreadKey)
    {record : Record ContextPointer} (same : record.payload.revision = record.revision) :
    ContextPointers.Revised (pointers.put thread record) := by
  intro thread' record' h
  rw [Table.get?_put] at h
  split at h
  · cases h
    exact same
  · exact revised thread' record' h

/-- A record that the code has just read is there to be replaced. -/
theorem ContextPointers.Revised.compareAndSet (revised : pointers.Revised)
    {current : ContextPointer} (h : pointers.get thread = some current) (updated : ContextPointer) :
    pointers.compareAndSet thread (some current.revision) updated =
      .ok (pointers.put thread { revision := current.revision + 1, payload := updated }) := by
  obtain ⟨record, hrecord, rfl⟩ := Records.get_eq_some.mp h
  have expected : pointers.revision thread = record.payload.revision :=
    (Records.revision_of_get hrecord).trans (revised thread record hrecord).symm
  exact Records.compareAndSet_eq_ok.mpr ⟨expected, rfl⟩

/-- `_pointer` refuses an input that is older than the one in the record. -/
theorem contextPointer_stale {current : ContextPointer} (h : pointers.get thread = some current)
    (later : inputRevision < current.inputRevision) :
    contextPointer pointers thread inputRevision = .error staleContextInput := by
  have refused : ¬current.inputRevision ≤ inputRevision := Nat.not_le.mpr later
  simp only [contextPointer, h, ok_bind, orThrow, require_neg _ refused, error_bind]

/-- `_pointer` accepts every other input, and leaves the pointer it returns in the record. -/
theorem contextPointer_of_le (revised : pointers.Revised)
    (current : ∀ p, pointers.get thread = some p → p.inputRevision ≤ inputRevision) :
    ∃ p pointers', contextPointer pointers thread inputRevision = .ok (p, pointers') ∧
      p.inputRevision = inputRevision ∧ pointers'.Revised ∧
      ∀ thread', pointers'.get thread' =
        if thread' = thread then some p else pointers.get thread' := by
  cases found : pointers.get thread with
  | none =>
      have absent : pointers.compareAndSet thread none { revision := 1, inputRevision } =
          .ok (pointers.put thread { revision := 1, payload := { revision := 1, inputRevision } }) :=
        Records.compareAndSet_eq_ok.mpr ⟨Records.revision_of_absent found, rfl⟩
      refine ⟨{ revision := 1, inputRevision },
        pointers.put thread { revision := 1, payload := { revision := 1, inputRevision } }, ?_, rfl,
        revised.put thread rfl, fun thread' => by rw [Records.get_put]⟩
      simp only [contextPointer, found, absent, ok_bind, Records.get_put, if_true, orThrow,
        require_pos _ (Nat.le_refl inputRevision), Nat.lt_irrefl, if_false]
  | some p =>
      have accepted := current p found
      rcases Nat.lt_or_eq_of_le accepted with older | same
      · let updated := { p with inputRevision, revision := p.revision + 1 }
        refine ⟨updated, pointers.put thread { revision := p.revision + 1, payload := updated }, ?_,
          rfl, revised.put thread rfl, fun thread' => by rw [Records.get_put]⟩
        simp only [contextPointer, found, ok_bind, orThrow, require_pos _ accepted, if_pos older,
          revised.compareAndSet found]
        rfl
      · refine ⟨p, pointers, ?_, same, revised, fun thread' => ?_⟩
        · simp only [contextPointer, found, ok_bind, orThrow, require_pos _ accepted,
            if_neg (Nat.not_lt.mpr same.ge)]
        · split
          · rename_i here
            rw [here, found]
          · rfl

/-- What `_pointer` returns is for the given input. -/
theorem contextPointer_eq_ok {p : ContextPointer} (revised : pointers.Revised)
    (h : contextPointer pointers thread inputRevision = .ok (p, pointers')) :
    (∀ q, pointers.get thread = some q → q.inputRevision ≤ inputRevision) ∧
      p.inputRevision = inputRevision ∧ pointers'.Revised ∧
      ∀ thread', pointers'.get thread' =
        if thread' = thread then some p else pointers.get thread' := by
  have current : ∀ q, pointers.get thread = some q → q.inputRevision ≤ inputRevision := by
    intro q hq
    by_contra later
    rw [contextPointer_stale hq (Nat.lt_of_not_le later)] at h
    cases h
  obtain ⟨q, pointers'', hok, spec⟩ := contextPointer_of_le revised current
  cases h.symm.trans hok
  exact ⟨current, spec⟩

/-- What `_pointer` returns is what the record has, or what it writes. -/
theorem contextPointer_cases {p : ContextPointer} (revised : pointers.Revised)
    (h : contextPointer pointers thread inputRevision = .ok (p, pointers')) :
    (pointers.get thread = some p ∧ pointers' = pointers) ∨
      (pointers.get thread = none ∧ p = { revision := 1, inputRevision }) ∨
      ∃ q, pointers.get thread = some q ∧ q.inputRevision < inputRevision ∧
        p = { q with inputRevision, revision := q.revision + 1 } := by
  unfold contextPointer at h
  cases found : pointers.get thread with
  | none =>
      rw [found] at h
      obtain ⟨written, made, h⟩ := bind_eq_ok.mp h
      obtain ⟨-, rfl⟩ := Records.compareAndSet_eq_ok.mp made
      obtain ⟨current, read, h⟩ := bind_eq_ok.mp h
      have same := orThrow_eq_ok.mp read
      rw [Records.get_put, if_pos rfl] at same
      cases same
      obtain ⟨_, -, h⟩ := bind_eq_ok.mp h
      rw [if_neg (Nat.lt_irrefl _)] at h
      cases h
      exact .inr (.inl ⟨rfl, rfl⟩)
  | some q =>
      simp only [found, ok_bind] at h
      obtain ⟨current, read, h⟩ := bind_eq_ok.mp h
      cases orThrow_eq_ok.mp read
      obtain ⟨_, -, h⟩ := bind_eq_ok.mp h
      split at h
      case isTrue older =>
        rw [revised.compareAndSet found, ok_bind] at h
        cases h
        exact .inr (.inr ⟨q, rfl, older, rfl⟩)
      case isFalse =>
        cases h
        exact .inl ⟨rfl, rfl⟩

end MiHarness

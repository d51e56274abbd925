import MiHarness.Context.Pointer
import MiHarness.Scheduler.Exclusive

/-!
# The input revisions of a branch

Two counters feed the context pointer of a branch: the branch revision gives each submitted run
its first input revision, and steering advances the run's own.  Nothing keeps the first ahead of
the second, so a run that was steered can leave a pointer that the next run of the branch is
below.  In the runs in which no claim takes a run that is below what the branch has composed
for, the owner of a branch is never refused.
-/

namespace MiHarness

open Library

variable {D : Discipline} {now : Time} {s s' : Store} {host : Host}

/-! ## The system with its pointers -/

structure ComposeWorld where
  base : World
  pointers : ContextPointers := .empty
  /-- The threads composed for and the input revisions, latest first. -/
  composed : List (ThreadKey × Nat) := []

inductive ComposeAction where
  | base (a : Action)
  /-- The worker of a run composes a model context. -/
  | compose (rid : RunId) (inputRevision : Nat)
  /-- The worker of a run activates a summary it has made. -/
  | activate (rid : RunId) (contextRevision : Nat) (summary : SummaryId)

/-- The thread of a run that a worker executes. -/
def Store.workedThread (s : Store) (rid : RunId) : Option (Run × ThreadKey) := do
  let run ← s.runs.get? rid
  let branch ← s.branches.get? run.branchId
  if run.status.started = true then some (run, branch.graphThreadKey) else none

/-- The input revision of a model call is that of its context, which is acknowledged before:
it is not above the run's.  A summary replaces the pointer it was made from, which has not
changed while its revision is the same. -/
def ComposeWorld.next (host : Host) (w : ComposeWorld) : ComposeAction → Option ComposeWorld
  | .base a => (w.base.next host a).map fun base => { w with base }
  | .compose rid inputRevision => do
      let (run, thread) ← w.base.store.workedThread rid
      if inputRevision ≤ run.inputRevision then
        match contextPointer w.pointers thread inputRevision with
        | .ok (_, pointers) =>
            some { w with pointers, composed := (thread, inputRevision) :: w.composed }
        | .error _ => none
      else none
  | .activate rid contextRevision summary => do
      let (_, thread) ← w.base.store.workedThread rid
      let current ← w.pointers.get thread
      match activateSummary w.pointers thread contextRevision current.inputRevision summary with
      | .ok pointers => some { w with pointers }
      | .error _ => none

def composeSystem (host : Host) : System ComposeWorld ComposeAction :=
  .ofNext (fun w => w.base.store = .initial ∧ w.pointers = .empty ∧ w.composed = [])
    (ComposeWorld.next host)

/-- A claim takes no run that is below an input revision its branch has composed for. -/
def ClaimsAbove (host : Host) (w : ComposeWorld) : ComposeAction → Prop
  | .base (.claim process fresh) => ∀ rid store run branch,
      claim host w.base.store process fresh w.base.now = .ok (some rid, store) →
      w.base.store.runs.get? rid = some run → w.base.store.branches.get? run.branchId = some branch →
      ∀ e ∈ w.composed, e.1 = branch.graphThreadKey → e.2 ≤ run.inputRevision
  | _ => True

/-! ## The database -/

/-- Every branch has a thread of its own. -/
def Store.ThreadsApart (s : Store) : Prop :=
  ∀ bid b bid' b', s.branches.get? bid = some b → s.branches.get? bid' = some b' →
    b.graphThreadKey = b'.graphThreadKey → bid = bid'

theorem Store.ThreadsApart.write (apart : s.ThreadsApart) (w : Write D now s s') :
    s'.ThreadsApart := by
  intro bid b bid' b' hb hb' same
  rcases w.threads with kept | ⟨new, row, hinsert, unique⟩
  · obtain ⟨c, hc, thread⟩ := kept bid b hb
    obtain ⟨c', hc', thread'⟩ := kept bid' b' hb'
    exact apart bid c bid' c' hc hc' (thread.trans (same.trans thread'.symm))
  · obtain ⟨-, rows⟩ := Table.insert?_eq_some hinsert
    rw [rows] at hb hb'
    split at hb <;> split at hb'
    · exact ‹bid = new›.trans ‹bid' = new›.symm
    · cases hb
      exact absurd same.symm (unique bid' b' hb')
    · cases hb'
      exact absurd same (unique bid b hb)
    · exact apart bid b bid' b' hb hb' same

/-- The owner of a branch is not below what the branch has composed for. -/
def Store.OwnersAbove (composed : List (ThreadKey × Nat)) (s : Store) : Prop :=
  ∀ bid b rid r, s.branches.get? bid = some b → b.activeRunId = some rid →
    s.runs.get? rid = some r → ∀ e ∈ composed, e.1 = b.graphThreadKey → e.2 ≤ r.inputRevision

/-- The input revision of a run never decreases. -/
theorem RunEffect.inputRevision_le {rid : RunId} {r r' : Run} (e : RunEffect D now s s' rid r')
    (h : s.runs.get? rid = some r) : r.inputRevision ≤ r'.inputRevision := by
  cases e with
  | kept hr | claimed hr | released hr | finished hr =>
      cases h.symm.trans hr
      exact Nat.le_refl _
  | added absent => cases h.symm.trans absent
  | moved hr m =>
      cases h.symm.trans hr
      cases m with
      | inputAdvanced _ _ later => exact later.le
      | _ => exact Nat.le_refl _

/-- The steps as the pointers see them: a claim takes no run below what is composed. -/
def Discipline.above (composed : List (ThreadKey × Nat)) : Discipline :=
  { scope := { takes := fun _ run thread => ∀ e ∈ composed, e.1 = thread → e.2 ≤ run.inputRevision } }

theorem Store.OwnersAbove.write {composed : List (ThreadKey × Nat)} (owned : s.Owned)
    (above : s.OwnersAbove composed) (w : Write (.above composed) now s s') :
    s'.OwnersAbove composed := by
  intro bid b' rid r' hb' active hr' e he thread
  -- an owner of the branch before the write is still above
  have kept : ∀ b r, s.branches.get? bid = some b → b.activeRunId = some rid →
      s.runs.get? rid = some r → e.1 = b.graphThreadKey → e.2 ≤ r'.inputRevision :=
    fun b r hb owner hr same =>
      (above bid b rid r hb owner hr e he same).trans ((w.runEffect hr').inputRevision_le hr)
  have owner : ∀ b, s.branches.get? bid = some b → b.activeRunId = some rid →
      ∃ r, s.runs.get? rid = some r := fun b hb named => by
    obtain ⟨r, hr, -⟩ := owned.live bid b rid hb named
    exact ⟨r, hr⟩
  cases w.branchEffect hb' with
  | kept hb =>
      obtain ⟨r, hr⟩ := owner b' hb active
      exact kept b' r hb active hr thread
  | added _ idle =>
      rw [idle] at active
      cases active
  | revised hb =>
      obtain ⟨r, hr⟩ := owner _ hb active
      exact kept _ r hb active hr thread
  | taken hb hr _ _ _ takes =>
      cases active
      have found : e.2 ≤ _ := takes e he thread
      exact found.trans ((w.runEffect hr').inputRevision_le hr)
  | givenUp => cases active

theorem ClaimsAbove.meets {w : ComposeWorld} {a : Action} (h : ClaimsAbove host w (.base a)) :
    (Discipline.above w.composed).Meets host w.base.store w.base.now a where
  scope := { Scope.Covers.all host w.base.store w.base.now a with
    takes := fun process fresh rid store run branch same hclaim hrun hbranch _ => by
      subst same
      exact h rid store run branch hclaim hrun hbranch }
  cancel _ _ _ _ := ⟨not_false, False.elim⟩
  settle _ _ _ _ _ := ⟨False.elim, False.elim, False.elim, False.elim⟩
  reconcile _ _ _ _ _ := False.elim
  delegate _ _ _ _ _ _ := False.elim

/-! ## Runs of the system -/

/-- The pointers are for compositions, and no owner is below them. -/
structure ComposeWorld.Current (w : ComposeWorld) : Prop where
  owned : w.base.store.Owned
  apart : w.base.store.ThreadsApart
  revised : w.pointers.Revised
  pointers : ∀ thread p, w.pointers.get thread = some p → (thread, p.inputRevision) ∈ w.composed
  owners : w.base.store.OwnersAbove w.composed

theorem Store.workedThread_eq_some {rid : RunId} {r : Run} {thread : ThreadKey} :
    s.workedThread rid = some (r, thread) ↔ s.runs.get? rid = some r ∧ r.status.started = true ∧
      ∃ b, s.branches.get? r.branchId = some b ∧ b.graphThreadKey = thread := by
  simp only [workedThread, Option.bind_eq_bind, Option.bind_eq_some_iff]
  constructor
  · rintro ⟨run, hrun, branch, hbranch, h⟩
    split at h
    · rename_i started
      cases h
      exact ⟨hrun, started, branch, hbranch, rfl⟩
    · cases h
  · rintro ⟨hrun, started, branch, hbranch, rfl⟩
    exact ⟨r, hrun, branch, hbranch, if_pos started⟩

theorem ComposeWorld.next_compose {w w' : ComposeWorld} {rid : RunId} {inputRevision : Nat}
    (h : w.next host (.compose rid inputRevision) = some w') :
    ∃ r thread p pointers, w.base.store.workedThread rid = some (r, thread) ∧
      inputRevision ≤ r.inputRevision ∧
      contextPointer w.pointers thread inputRevision = .ok (p, pointers) ∧
      w' = { w with pointers, composed := (thread, inputRevision) :: w.composed } := by
  simp only [next, Option.bind_eq_bind, Option.bind_eq_some_iff] at h
  obtain ⟨⟨r, thread⟩, worked, h⟩ := h
  split at h
  · rename_i acknowledged
    split at h
    · rename_i p pointers hpointer
      cases h
      exact ⟨r, thread, p, pointers, worked, acknowledged, hpointer, rfl⟩
    · cases h
  · cases h

theorem ComposeWorld.next_activate {w w' : ComposeWorld} {rid : RunId} {contextRevision : Nat}
    {summary : SummaryId} (h : w.next host (.activate rid contextRevision summary) = some w') :
    ∃ thread current pointers, w.pointers.get thread = some current ∧
      activateSummary w.pointers thread contextRevision current.inputRevision summary =
        .ok pointers ∧ w' = { w with pointers } := by
  simp only [next, Option.bind_eq_bind, Option.bind_eq_some_iff] at h
  obtain ⟨⟨r, thread⟩, -, current, hcurrent, h⟩ := h
  split at h
  · rename_i pointers hactivate
    cases h
    exact ⟨thread, current, pointers, hcurrent, hactivate, rfl⟩
  · cases h

theorem composeSystem_base {w : ComposeWorld} (reach : (composeSystem host).Reachable w) :
    (system host).Reachable w.base := by
  refine reach.map (S := composeSystem host) ComposeWorld.base (fun w start => start.1)
    fun w a w' _ step => ?_
  cases a with
  | base a =>
      obtain ⟨base, hbase, rfl⟩ := Option.map_eq_some_iff.mp step
      exact .inr ⟨a, hbase⟩
  | compose rid inputRevision =>
      obtain ⟨_, _, _, _, -, -, -, rfl⟩ := ComposeWorld.next_compose step
      exact .inl rfl
  | activate rid contextRevision summary =>
      obtain ⟨_, _, _, -, -, rfl⟩ := ComposeWorld.next_activate step
      exact .inl rfl

/-- A step of the database keeps the pointers and the owners above them. -/
theorem ComposeWorld.Current.base {w : ComposeWorld} {base : World} {a : Action}
    (reach : (system host).Reachable w.base) (current : w.Current)
    (above : ClaimsAbove host w (.base a)) (step : w.base.next host a = some base) :
    ComposeWorld.Current { w with base } := by
  have writes := (step_writes reach above.meets step).2
  have kept : base.store.Owned ∧ base.store.ThreadsApart ∧ base.store.OwnersAbove w.composed :=
    writes.invariant (I := fun s => s.Owned ∧ s.ThreadsApart ∧ s.OwnersAbove w.composed)
      (fun t t' h wr => ⟨h.1.write wr, h.2.1.write wr, h.2.2.write h.1 wr⟩)
      ⟨current.owned, current.apart, current.owners⟩
  exact ⟨kept.1, kept.2.1, current.revised, current.pointers, kept.2.2⟩

/-- A composition of the owner leaves the pointer at an input revision the owner has reached. -/
theorem ComposeWorld.Current.compose {w : ComposeWorld} {rid : RunId} {r : Run}
    {thread : ThreadKey} {inputRevision : Nat} {p : ContextPointer} {pointers : ContextPointers}
    (current : w.Current) (worked : w.base.store.workedThread rid = some (r, thread))
    (acknowledged : inputRevision ≤ r.inputRevision)
    (h : contextPointer w.pointers thread inputRevision = .ok (p, pointers)) :
    ComposeWorld.Current
      { w with pointers, composed := (thread, inputRevision) :: w.composed } := by
  obtain ⟨-, here, revised, records⟩ := contextPointer_eq_ok current.revised h
  refine ⟨current.owned, current.apart, revised, fun thread' q hq => ?_, ?_⟩
  · rw [records] at hq
    split at hq
    · cases hq
      rw [‹thread' = thread›, here]
      exact List.mem_cons_self ..
    · exact List.mem_cons_of_mem _ (current.pointers thread' q hq)
  · intro bid b rid' r' hb active hr' e he same
    rcases List.mem_cons.mp he with rfl | he
    · -- the branch of the thread has one owner, the run that composes
      obtain ⟨hr, started, branch, hbranch, rfl⟩ := Store.workedThread_eq_some.mp worked
      obtain ⟨owned, howned, owner⟩ := current.owned.owner rid r hr started
      cases hbranch.symm.trans howned
      obtain rfl := current.apart _ _ _ _ hbranch hb same
      cases hbranch.symm.trans hb
      cases owner.symm.trans active
      cases hr.symm.trans hr'
      exact acknowledged
    · exact current.owners bid b rid' r' hb active hr' e he same

theorem ComposeWorld.Current.activate {w : ComposeWorld} {thread : ThreadKey}
    {contextRevision : Nat} {summary : SummaryId} {p : ContextPointer} {pointers : ContextPointers}
    (current : w.Current) (hp : w.pointers.get thread = some p)
    (h : activateSummary w.pointers thread contextRevision p.inputRevision summary = .ok pointers) :
    ComposeWorld.Current { w with pointers } := by
  obtain ⟨-, rfl⟩ := Records.compareAndSet_eq_ok.mp h
  refine ⟨current.owned, current.apart, current.revised.put thread rfl, fun thread' q hq => ?_,
    current.owners⟩
  rw [Records.get_put] at hq
  split at hq
  · cases hq
    rw [‹thread' = thread›]
    exact current.pointers thread p hp
  · exact current.pointers thread' q hq

theorem composeSystem_current {w : ComposeWorld}
    (reach : ((composeSystem host).restrict (ClaimsAbove host)).Reachable w) : w.Current := by
  refine reach.invariant (I := ComposeWorld.Current) (fun w start => ?_) fun w a w' hw current step => ?_
  · obtain ⟨store, pointers, composed⟩ := start
    refine ⟨store ▸ .initial, ?_, ?_, ?_, ?_⟩
    · rw [store]
      exact fun _ _ _ _ h => by cases h
    · rw [pointers]
      exact fun _ _ h => by cases h
    · rw [pointers]
      exact fun _ _ h => by cases h
    · rw [store]
      exact fun _ _ _ _ h => by cases h
  · cases a with
    | base a =>
        obtain ⟨base, hbase, rfl⟩ := Option.map_eq_some_iff.mp step.2
        exact current.base (composeSystem_base hw.of_restrict) step.1 hbase
    | compose rid inputRevision =>
        obtain ⟨r, thread, p, pointers, worked, acknowledged, h, rfl⟩ :=
          ComposeWorld.next_compose step.2
        exact current.compose worked acknowledged h
    | activate rid contextRevision summary =>
        obtain ⟨thread, p, pointers, hp, h, rfl⟩ := ComposeWorld.next_activate step.2
        exact current.activate hp h

/-- In every run whose claims take no run below what its branch has composed for, the pointer of
a branch is not above the input revision of its owner, and the owner is not refused. -/
theorem pointer_le_owner {w : ComposeWorld}
    (reach : ((composeSystem host).restrict (ClaimsAbove host)).Reachable w) {bid : BranchId}
    {b : Branch} {rid : RunId} {r : Run} (hb : w.base.store.branches.get? bid = some b)
    (active : b.activeRunId = some rid) (hr : w.base.store.runs.get? rid = some r) :
    (∀ p, w.pointers.get b.graphThreadKey = some p → p.inputRevision ≤ r.inputRevision) ∧
      ∃ p pointers, contextPointer w.pointers b.graphThreadKey r.inputRevision = .ok (p, pointers) := by
  have current := composeSystem_current reach
  have below : ∀ p, w.pointers.get b.graphThreadKey = some p → p.inputRevision ≤ r.inputRevision :=
    fun p hp => current.owners bid b rid r hb active hr _ (current.pointers _ p hp) rfl
  obtain ⟨p, pointers, accepted, -⟩ := contextPointer_of_le current.revised below
  exact ⟨below, p, pointers, accepted⟩

namespace Sample

def composeStart : ComposeWorld := { base := start }

/-- Run `10` composes, completes and run `12` is submitted on its branch. -/
def composedOnce : List ComposeAction :=
  [.compose 10 2, .base (.settle machine (context 20 1) final),
    .base (.submit 1 1 ⟨1, 1, 2, 1, "next", ∅, 1000000⟩ 12)]

/-- Run `10` is steered twice and composes for each command. -/
def steeredTwice : List ComposeAction :=
  [.base (.steer 1 10 "first" 2 70),
    .base (.ackInputCommands { context 20 1 with inputRevision := 3 } [70]), .compose 10 3,
    .base (.steer 1 10 "second" 3 71),
    .base (.ackInputCommands { context 20 1 with inputRevision := 4 } [71]), .compose 10 4]

/-- It completes, and run `12` is submitted on its branch and claimed. -/
def followed : List ComposeAction :=
  [.base (.settle machine { context 20 1 with inputRevision := 4 } { final with inputRevision := 4 }),
    .base (.submit 1 1 ⟨1, 1, 2, 1, "next", ∅, 1000000⟩ 12), .base (.claim ⟨1, 1⟩ 21)]

end Sample

/-- A second run of a branch composes after the first. -/
theorem pointer_le_owner_second : ∃ (w : ComposeWorld) (b : Branch) (r : Run),
    w.base.store.branches.get? 1 = some b ∧ b.activeRunId = some 12 ∧
    w.base.store.runs.get? 12 = some r ∧ w.composed = [(5, 2)] ∧
    ∃ p pointers, contextPointer w.pointers b.graphThreadKey r.inputRevision = .ok (p, pointers) := by
  let next := ComposeWorld.next Sample.host
  have run : (System.runs next Sample.composeStart (Sample.submitted.map .base)).any (fun w₁ =>
      decide (w₁.composed = []) && (next w₁ (.base (.claim ⟨1, 1⟩ 20))).any fun w₂ =>
        (System.runs next w₂ Sample.composedOnce).any fun w₃ =>
          decide (w₃.composed = [(5, 2)]) &&
          (w₃.base.store.runs.rows.all fun e => decide (2 ≤ e.2.inputRevision)) &&
          (next w₃ (.base (.claim ⟨1, 1⟩ 21))).any fun w₄ =>
            ((w₄.base.store.branches.get? 1).any fun b => decide (b.activeRunId = some 12)) &&
            (w₄.base.store.runs.get? 12).isSome && decide (w₄.composed = [(5, 2)])) = true := by decide
  simp only [Option.any_eq_true, Bool.and_eq_true, decide_eq_true_eq, List.all_eq_true,
    Option.isSome_iff_exists] at run
  obtain ⟨w₁, h₁, none₁, w₂, h₂, w₃, h₃, ⟨once, revisions⟩, w₄, h₄, ⟨⟨b, hb, active⟩, r, hr⟩, still⟩ := run
  have reach : ((composeSystem Sample.host).restrict (ClaimsAbove Sample.host)).Reachable
      Sample.composeStart := .init ⟨rfl, rfl, rfl⟩
  have reach₁ := System.Reachable.runsWithin (fun a ha w => by
    simp only [Sample.submitted, List.map_cons, List.map_nil, List.mem_cons, List.not_mem_nil,
      or_false] at ha
    rcases ha with rfl | rfl <;> trivial) reach h₁
  have first : ClaimsAbove Sample.host w₁ (.base (.claim ⟨1, 1⟩ 20)) := by
    intro _ _ _ _ _ _ _ e he
    rw [none₁] at he
    cases he
  have reach₃ := System.Reachable.runsWithin (fun a ha w => by
    simp only [Sample.composedOnce, List.mem_cons, List.not_mem_nil, or_false] at ha
    rcases ha with rfl | rfl | rfl <;> trivial) (reach₁.step ⟨first, h₂⟩) h₃
  have second : ClaimsAbove Sample.host w₃ (.base (.claim ⟨1, 1⟩ 21)) := by
    intro rid _ run _ _ hrun _ e he _
    rw [once, List.mem_singleton] at he
    subst he
    exact revisions (rid, run) (Table.mem_rows.mpr hrun)
  obtain ⟨-, accepted⟩ := pointer_le_owner (reach₃.step ⟨second, h₄⟩) hb active hr
  exact ⟨w₄, b, r, hb, active, hr, still, accepted⟩

/-- The next run of a branch is refused after a run that was steered twice. -/
theorem owner_refused : ¬∀ host w, (composeSystem host).Reachable w → ∀ bid b rid r,
    w.base.store.branches.get? bid = some b → b.activeRunId = some rid →
    w.base.store.runs.get? rid = some r →
    contextPointer w.pointers b.graphThreadKey r.inputRevision ≠ .error staleContextInput := by
  intro accepted
  have run : (System.runs (ComposeWorld.next Sample.host) Sample.composeStart
      ((Sample.submitted ++ [Action.claim ⟨1, 1⟩ 20]).map .base ++ Sample.steeredTwice ++
        Sample.followed)).any (fun w =>
        (w.base.store.branches.get? 1).any fun b => decide (b.activeRunId = some 12) &&
          (w.base.store.runs.get? 12).any fun r =>
            (w.pointers.get b.graphThreadKey).any fun p => decide (r.inputRevision < p.inputRevision))
        = true := by decide
  simp only [Option.any_eq_true, Bool.and_eq_true, decide_eq_true_eq] at run
  obtain ⟨w, hw, b, hb, active, r, hr, p, hp, below⟩ := run
  have reach : (composeSystem Sample.host).Reachable w :=
    System.Reachable.runs (.init ⟨rfl, rfl, rfl⟩) hw
  exact accepted _ w reach 1 b 12 r hb active hr (contextPointer_stale hp below)

end MiHarness

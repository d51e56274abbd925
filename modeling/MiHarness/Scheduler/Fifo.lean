import MiHarness.Scheduler.Lease
import MiHarness.Scheduler.Terminal

/-!
# The queue of a branch

`submit` reads the time and draws the id of the run before its transaction, and the transaction accepts
the run if the branch is at the revision that the request expects.  `claim` goes through the queued runs
in the order of `created_at` and `id`.

`branch_fifo` has two parts.  In every run of the system the accepted submits of a branch get
consecutive revisions.  While every accepted submit comes after the earlier ones of its branch in the
order of `claim`, the runs are first claimed in the order of their revisions.
-/

namespace MiHarness

open Library

variable {D : Discipline} {now : Time} {s s' : Store} {host : Host}

/-! ## The model -/

/-- The transaction of `submit`, with the time that was read before it: `created_at` is that time. -/
def submitRead (s : Store) (owner : OwnerId) (session : SessionId) (request : Submission)
    (fresh : RunId) (readAt now : Time) : Except HarnessError Store := do
  let s ← submit s owner session request fresh now
  .ok { s with runs := s.runs.modify fresh fun run => { run with createdAt := readAt } }

/-- A submit that was accepted. -/
structure Admission where
  branch : BranchId
  run : RunId
  /-- The `branch_revision` it has returned. -/
  revision : Nat
deriving DecidableEq

/-- The installation, with what has happened to its queues. -/
structure QueueWorld where
  base : World
  /-- The accepted submits, in the order of their transactions. -/
  accepted : List Admission := []
  /-- The runs that have been claimed, in the order of their first claims. -/
  claimed : List RunId := []

inductive QueueAction where
  /-- A submit that has read the time `readAt`. -/
  | submit (readAt : Time) (owner : OwnerId) (session : SessionId) (request : Submission)
      (fresh : RunId)
  | claim (process : ProcessId) (fresh : AttemptId)
  | other (a : Action)

/-- The run has not been claimed yet. -/
def Store.unclaimed (s : Store) (rid : RunId) : Bool :=
  (s.runs.get? rid).any fun run => run.fencingToken = 0

/-- The transactions that are not for the queue. -/
def Action.elsewhere : Action → Bool
  | .submit .. | .claim .. => false
  | _ => true

def QueueWorld.next (host : Host) (w : QueueWorld) : QueueAction → Option QueueWorld
  | .submit readAt owner session request fresh =>
      if readAt ≤ w.base.now then
        match submitRead w.base.store owner session request fresh readAt w.base.now with
        | .ok store => some { w with
            base := { w.base with store }
            accepted := w.accepted ++
              [{ branch := request.branchId, run := fresh
                 revision := request.expectedBranchRevision + 1 }] }
        | .error _ => none
      else none
  | .claim process fresh =>
      match claim host w.base.store process fresh w.base.now with
      | .ok (some rid, store) => some { w with
          base := { w.base with store }
          claimed := if w.base.store.unclaimed rid then w.claimed ++ [rid] else w.claimed }
      | .ok (none, store) => some { w with base := { w.base with store } }
      | .error _ => none
  | .other a =>
      if a.elsewhere then (w.base.next host a).map fun base => { w with base } else none

def queueSystem (host : Host) : System QueueWorld QueueAction :=
  .ofNext (fun w => w.base.store = .initial ∧ w.accepted = [] ∧ w.claimed = []) (QueueWorld.next host)

/-! ## What is required -/

/-- The revisions that the accepted submits of a branch have got. -/
def QueueWorld.revisions (w : QueueWorld) (bid : BranchId) : List Nat :=
  (w.accepted.filter fun e => e.branch = bid).map Admission.revision

/-- The runs of a branch are first claimed in the order of their revisions, and none that can still be
claimed has been passed. -/
structure QueueWorld.Fifo (w : QueueWorld) : Prop where
  order : w.claimed.Pairwise fun a b => ∀ e ∈ w.accepted, ∀ e' ∈ w.accepted, e.run = a → e'.run = b →
    e.branch = e'.branch → e.revision < e'.revision
  passed : ∀ e ∈ w.accepted, ∀ e' ∈ w.accepted, e.branch = e'.branch → e.revision < e'.revision →
    e'.run ∈ w.claimed → e.run ∈ w.claimed ∨
      ∃ r, w.base.store.runs.get? e.run = some r ∧ r.status.terminal = true

/-- An accepted submit comes after the earlier ones of its branch: it has read a later time, or the same
time and drawn a greater id. -/
def QueueWorld.Later (w : QueueWorld) : QueueAction → Prop
  | .submit readAt _ _ request fresh => ∀ e ∈ w.accepted, e.branch = request.branchId →
      ∀ r, w.base.store.runs.get? e.run = some r →
        r.createdAt < readAt ∨ r.createdAt = readAt ∧ e.run < fresh
  | _ => True

instance (w : QueueWorld) : DecidablePred w.Later := fun
  | .submit readAt _ _ request fresh =>
      decidable_of_iff (∀ e ∈ w.accepted, e.branch = request.branchId →
        (w.base.store.runs.get? e.run).all fun r =>
          r.createdAt < readAt ∨ r.createdAt = readAt ∧ e.run < fresh)
        (by simp [QueueWorld.Later, Option.all_eq_true])
  | .claim .. | .other _ => .isTrue trivial

/-! ## A claim -/

/-- What a claim of a run finds and writes. -/
structure Store.Takes (s : Store) (rid : RunId) (run : Run) (b : Branch) (s' : Store) : Prop where
  row : s.runs.get? rid = some run
  queued : run.status = .queued
  branch : s.branches.get? run.branchId = some b
  free : b.activeRunId = none ∨ b.activeRunId = some rid
  /-- Of the runs that come before it on its branch only children are left. -/
  first : ∀ rid' run', s.runs.get? rid' = some run' → run'.status = .queued →
    run'.branchId = run.branchId → run'.parentRunId = none → ¬Store.createdBefore (rid, run) (rid', run') →
    b.activeRunId ≠ none ∧ b.activeRunId ≠ some rid'
  runs : ∃ run', run.Same run' ∧ run'.status = .running ∧ run'.fencingToken = run.fencingToken + 1 ∧
    ∀ k, s'.runs.get? k = if k = rid then some run' else s.runs.get? k
  branches : ∀ k, s'.branches.get? k =
    if k = run.branchId then some { b with activeRunId := some rid } else s.branches.get? k

theorem takeRun_rows {process : ProcessId} {rid : RunId} {run : Run} {b : Branch} {fresh : AttemptId}
    (hrun : s.runs.get? rid = some run) (hb : s.branches.get? run.branchId = some b)
    (h : takeRun host s process rid run b.activeRunId fresh now = .ok s') :
    (∃ run', run.Same run' ∧ run'.status = .running ∧ run'.fencingToken = run.fencingToken + 1 ∧
      ∀ k, s'.runs.get? k = if k = rid then some run' else s.runs.get? k) ∧
    ∀ k, s'.branches.get? k =
      if k = run.branchId then some { b with activeRunId := some rid } else s.branches.get? k := by
  simp only [takeRun, bind_eq_ok] at h
  obtain ⟨t, howner, u, hattempt, h⟩ := h
  obtain ⟨-, rfl⟩ := Store.setBranchOwner_eq_ok howner
  obtain ⟨attempts, -, rfl⟩ := Store.addAttempt_eq_ok hattempt
  obtain ⟨row, events, -, -, -, rfl⟩ := transition_moved h rfl
  let patch : RunPatch :=
    { attemptId := some fresh, fencingToken := some (run.fencingToken + 1), status := some .running }
  exact ⟨⟨patch.apply run, ⟨rfl, rfl, rfl, rfl, rfl, rfl⟩, rfl, rfl, Table.get?_modify_found _ hrun⟩,
    Table.get?_modify_found _ hb⟩

/-- The first run of a list that the loop of `claim` does not pass over. -/
structure Store.First (s : Store) (queued : List (RunId × Run)) (rid : RunId) (run : Run) (b : Branch) :
    Prop where
  branch : s.branches.get? run.branchId = some b
  free : b.activeRunId = none ∨ b.activeRunId = some rid
  split : ∃ before after, queued = before ++ (rid, run) :: after ∧
    ∀ e ∈ before, e.2.branchId = run.branchId → e.2.parentRunId = none →
      b.activeRunId ≠ none ∧ b.activeRunId ≠ some e.1

theorem Store.First.skip {queued : List (RunId × Run)} {rid rid' : RunId} {run run' : Run}
    {b b' : Branch} (first : s.First queued rid run b) (hb : s.branches.get? run'.branchId = some b')
    (passed : run'.parentRunId = none → b'.activeRunId ≠ none ∧ b'.activeRunId ≠ some rid') :
    s.First ((rid', run') :: queued) rid run b where
  branch := first.branch
  free := first.free
  split := by
    obtain ⟨before, after, rfl, before'⟩ := first.split
    refine ⟨(rid', run') :: before, after, rfl, List.forall_mem_cons.mpr ⟨fun here parent => ?_, before'⟩⟩
    dsimp only at here
    rw [here, first.branch] at hb
    cases hb
    exact passed parent

theorem claimFrom_takes {running : List (RunId × Run)} {process : ProcessId} {fresh : AttemptId}
    {taken : Option RunId} : ∀ {queued : List (RunId × Run)},
      (∀ e ∈ queued, s.runs.get? e.1 = some e.2 ∧ e.2.cancelRequested = false) →
      claimFrom host running process fresh now queued s = .ok (taken, s') →
      taken = none ∧ s' = s ∨ ∃ rid run b, taken = some rid ∧ s.First queued rid run b ∧
        takeRun host s process rid run b.activeRunId fresh now = .ok s'
  | [], _, h => by
      cases h
      exact .inl ⟨rfl, rfl⟩
  | (rid, run) :: rest, rows, h => by
      obtain ⟨hrun, goes⟩ := rows (rid, run) (List.mem_cons_self ..)
      have later := fun e he => rows e (List.mem_cons_of_mem _ he)
      simp only [claimFrom, bind_eq_ok, Store.branch_eq_ok] at h
      obtain ⟨b, hb, h⟩ := h
      split at h
      · rename_i busy
        rcases claimFrom_takes later h with none | ⟨rid', run', b', same, first, takes⟩
        · exact .inl none
        · exact .inr ⟨rid', run', b', same, first.skip hb fun _ => busy, takes⟩
      rename_i free
      split at h
      · rename_i flagged
        rw [goes] at flagged
        cases flagged
      split at h
      · rename_i child
        rcases claimFrom_takes later h with none | ⟨rid', run', b', same, first, takes⟩
        · exact .inl none
        · refine .inr ⟨rid', run', b', same, first.skip hb fun none => ?_, takes⟩
          rw [none] at child
          cases child.1
      · obtain ⟨t, htake, h⟩ := bind_eq_ok.mp h
        cases h
        refine .inr ⟨rid, run, b, rfl, ⟨hb, ?_, [], rest, rfl, fun e he => absurd he List.not_mem_nil⟩, htake⟩
        by_contra busy
        exact free (not_or.mp busy)

theorem claim_takes {process : ProcessId} {fresh : AttemptId} {taken : Option RunId}
    (go : s.QueuedGo) (h : claim host s process fresh now = .ok (taken, s')) :
    taken = none ∧ s' = s ∨ ∃ rid run b, taken = some rid ∧ s.Takes rid run b s' := by
  unfold claim at h
  split at h
  · cases h
    exact .inl ⟨rfl, rfl⟩
  dsimp only at h
  split at h
  · cases h
    exact .inl ⟨rfl, rfl⟩
  have rows : ∀ e ∈ s.runsWith [.queued], s.runs.get? e.1 = some e.2 ∧ e.2.status = .queued :=
    fun e he => (Store.mem_runsWith.mp he).imp_right List.mem_singleton.mp
  rcases claimFrom_takes (fun e he => (rows e he).imp_right (go e.1 e.2 (rows e he).1)) h with none |
    ⟨rid, run, b, same, ⟨hb, free, before, after, split, first⟩, takes⟩
  · exact .inl none
  have listed : (rid, run) ∈ s.runsWith [.queued] := by
    rw [split]
    exact List.mem_append_right _ (List.mem_cons_self ..)
  obtain ⟨hrun, queued⟩ := rows _ listed
  obtain ⟨runs, branches⟩ := takeRun_rows hrun hb takes
  refine .inr ⟨rid, run, b, same, hrun, queued, hb, free, ?_, runs, branches⟩
  intro rid' run' hrun' queued' here parent ahead
  have mem : (rid', run') ∈ s.runsWith [.queued] :=
    Store.mem_runsWith.mpr ⟨hrun', List.mem_singleton.mpr queued'⟩
  have sorted := s.pairwise_runsWith [.queued]
  rw [split] at mem sorted
  rcases List.mem_append.mp mem with mem | mem
  · exact first _ mem here parent
  rcases List.mem_cons.mp mem with same' | mem
  · cases same'
    exact absurd (.inr ⟨rfl, Nat.le_refl _⟩) ahead
  · have tail := (List.pairwise_append.mp sorted).2.1
    exact absurd (List.rel_of_pairwise_cons tail mem) ahead

/-! ## The other transactions -/

/-- The steps of transactions that are not for the queue: they claim nothing and accept nothing. -/
def Discipline.elsewhere : Discipline :=
  { scope := { takes := fun _ _ _ => False, revises := False } }

theorem Discipline.elsewhere_meets {a : Action} (elsewhere : a.elsewhere = true) :
    Discipline.elsewhere.Meets host s now a where
  scope := { Scope.Covers.all host s now a with
    takes := fun process fresh rid store run branch same => by
      subst same
      cases elsewhere
    revises := fun owner session request fresh same => by
      subst same
      cases elsewhere }
  cancel _ _ _ _ := ⟨not_false, False.elim⟩
  settle _ _ _ _ _ := ⟨False.elim, False.elim, False.elim, False.elim⟩
  reconcile _ _ _ _ _ := False.elim
  delegate _ _ _ _ _ _ := False.elim

/-- A write that claims nothing keeps the token of a run. -/
theorem RunEffect.token {rid : RunId} {r r' : Run} (e : RunEffect D now s s' rid r')
    (idle : ∀ runs run thread, ¬D.scope.takes runs run thread) (h : s.runs.get? rid = some r) :
    r'.fencingToken = r.fencingToken := by
  cases e with
  | kept hr | released hr | finished hr =>
      cases h.symm.trans hr
      rfl
  | added absent => cases h.symm.trans absent
  | claimed _ _ _ _ _ _ _ found =>
      obtain ⟨_, _, _, takes⟩ := found
      exact absurd takes (idle _ _ _)
  | moved hr m =>
      cases h.symm.trans hr
      exact m.attempt.2

/-- What a queue rests on: the owner of a branch has been claimed, and a run that has not been claimed is
in the queue or has ended. -/
structure Store.Queues (s : Store) : Prop where
  base : s.Base
  owners : ∀ bid b rid, s.branches.get? bid = some b → b.activeRunId = some rid →
    ∃ r, s.runs.get? rid = some r ∧ 0 < r.fencingToken
  waiting : ∀ rid r, s.runs.get? rid = some r → r.fencingToken = 0 →
    r.status = .queued ∨ r.status.terminal = true

theorem Store.Queues.initial : Store.initial.Queues where
  base := .initial
  owners _ _ _ h := by cases h
  waiting _ _ h := by cases h

theorem RunMove.working {rid : RunId} {r r' : Run} (m : RunMove D now s rid r r') :
    r.status ≠ .queued := by
  cases m with
  | checkpointed _ live => rcases live with h | h <;> simp [h]
  | reviewed live => rcases live with h | h <;> simp [h]
  | woken waits => rcases waits with h | h <;> simp [h]
  | inputAdvanced _ h | suspended h | lost h | requeued h => simp [h]
  | cancelling _ _ h => exact h

theorem Store.Queues.write (queues : s.Queues)
    (idle : ∀ runs run thread, ¬D.scope.takes runs run thread) (w : Write D now s s') : s'.Queues where
  base := queues.base.write w
  owners bid b' rid hb' active := by
    have stays : ∀ b, s.branches.get? bid = some b → b.activeRunId = some rid →
        ∃ r, s'.runs.get? rid = some r ∧ 0 < r.fencingToken := by
      intro b hb owner
      obtain ⟨r, hr, claimed⟩ := queues.owners bid b rid hb owner
      obtain ⟨r', hr', -⟩ := w.run_stays hr
      exact ⟨r', hr', (w.runEffect hr').token idle hr ▸ claimed⟩
    cases w.branchEffect hb' with
    | kept hb => exact stays b' hb active
    | revised hb => exact stays _ hb active
    | added _ free =>
        rw [free] at active
        cases active
    | taken _ _ _ _ _ takes => exact absurd takes (idle _ _ _)
    | givenUp => cases active
  waiting rid r' hr' token := by
    cases w.runEffect hr' with
    | kept hr => exact queues.waiting rid r' hr token
    | added _ fresh => exact .inl fresh.queued
    | claimed => cases token
    | moved hr m =>
        rcases queues.waiting rid _ hr (m.attempt.2 ▸ token) with queued | ended
        · exact absurd queued m.working
        · rw [m.live] at ended
          cases ended
    | released => exact .inl rfl
    | finished _ _ ends => exact .inr ends

/-- What the queue sees of a step that claims nothing. -/
structure Store.Beside (s s' : Store) : Prop where
  rows : ∀ rid r, s.runs.get? rid = some r → ∃ r', s'.runs.get? rid = some r' ∧ r.Same r' ∧
    r'.fencingToken = r.fencingToken ∧ (r.status.terminal = true → r'.status.terminal = true)
  claimed : ∀ rid r', s'.runs.get? rid = some r' → 0 < r'.fencingToken →
    ∃ r, s.runs.get? rid = some r ∧ 0 < r.fencingToken
  branches : ∀ bid b, s.branches.get? bid = some b → ∃ b', s'.branches.get? bid = some b'

theorem Run.Same.refl (r : Run) : r.Same r := ⟨rfl, rfl, rfl, rfl, rfl, rfl⟩

theorem Run.Same.trans {r r' r'' : Run} (h : r.Same r') (k : r'.Same r'') : r.Same r'' where
  owner := k.owner.trans h.owner
  branch := k.branch.trans h.branch
  root := k.root.trans h.root
  parent := k.parent.trans h.parent
  created := k.created.trans h.created
  depth := k.depth.trans h.depth

theorem Store.Beside.refl (s : Store) : s.Beside s where
  rows _ r h := ⟨r, h, .refl r, rfl, id⟩
  claimed _ r h claimed := ⟨r, h, claimed⟩
  branches _ b h := ⟨b, h⟩

theorem Store.Beside.write {t : Store} (h : s.Beside t)
    (idle : ∀ runs run thread, ¬D.scope.takes runs run thread) (w : Write D now t s') : s.Beside s' where
  rows rid r hr := by
    obtain ⟨r₁, h₁, same, token, ended⟩ := h.rows rid r hr
    obtain ⟨r', hr', same'⟩ := w.run_stays h₁
    have effect := w.runEffect hr'
    refine ⟨r', hr', same.trans same', (effect.token idle h₁).trans token, fun before => ?_⟩
    rw [effect.terminal h₁ (ended before)]
    exact ended before
  claimed rid r' hr' claimed := by
    cases h₁ : t.runs.get? rid with
    | none =>
        cases w.runEffect hr' with
        | added _ fresh =>
            rw [fresh.token] at claimed
            cases claimed
        | kept hr | claimed hr | moved hr | released hr | finished hr => cases h₁.symm.trans hr
    | some r₁ => exact h.claimed rid r₁ h₁ ((w.runEffect hr').token idle h₁ ▸ claimed)
  branches bid b hb := by
    obtain ⟨b₁, h₁⟩ := h.branches bid b hb
    exact w.branch_stays h₁

/-- A step that accepts nothing leaves the revisions of the branches. -/
theorem Writes.revision (writes : Writes D now s s') (idle : ∀ runs run thread, ¬D.scope.takes runs run thread)
    (silent : ¬D.scope.revises) {bid : BranchId} {b' : Branch} (h : s'.branches.get? bid = some b') :
    s.branches.get? bid = none ∨ ∃ b, s.branches.get? bid = some b ∧ b.revision = b'.revision := by
  induction writes generalizing b' with
  | refl => exact .inr ⟨b', h, rfl⟩
  | @tail t u earlier w ih =>
      cases w.branchEffect h with
      | kept hb => exact ih hb
      | revised _ revises => exact absurd revises silent
      | taken _ _ _ _ _ takes => exact absurd takes (idle _ _ _)
      | givenUp hb =>
          rcases ih hb with none | ⟨b, hb', same⟩
          · exact .inl none
          · exact .inr ⟨b, hb', same⟩
      | added absent =>
          refine .inl ?_
          cases before : s.branches.get? bid with
          | none => rfl
          | some b =>
              have stays : s.Beside t := Writes.invariant (fun _ _ h w => h.write idle w) earlier (.refl s)
              obtain ⟨b₁, h₁⟩ := stays.branches bid b before
              cases absent.symm.trans h₁

/-! ## A submit -/

/-- What an accepted submit finds and writes. -/
structure Store.Accepts (s : Store) (request : Submission) (fresh : RunId) (readAt : Time) (b : Branch)
    (row : Run) (s' : Store) : Prop where
  branch : s.branches.get? request.branchId = some b
  expected : b.revision = request.expectedBranchRevision
  absent : s.runs.get? fresh = none
  new : row.Fresh readAt
  here : row.branchId = request.branchId
  parent : row.parentRunId = none
  runs : ∀ k, s'.runs.get? k = if k = fresh then some row else s.runs.get? k
  branches : ∀ k, s'.branches.get? k =
    if k = request.branchId then some { b with revision := b.revision + 1 } else s.branches.get? k

theorem submitRead_accepts {owner : OwnerId} {session : SessionId} {request : Submission}
    {fresh : RunId} {readAt : Time} (revises : D.scope.revises)
    (h : submitRead s owner session request fresh readAt now = .ok s') :
    Writes D readAt s s' ∧ ∃ b row, s.Accepts request fresh readAt b row s' := by
  simp only [submitRead, submit, bind_eq_ok, require_eq_ok, exists_const, Store.branch_eq_ok] at h
  obtain ⟨t, ⟨-, b, hb, -, t', hadvance, u, hinsert, ledger, -, hu⟩, h⟩ := h
  cases hu
  cases h
  have expected : (s.branches.get? request.branchId).map Branch.revision =
      some request.expectedBranchRevision := by
    simp only [Store.advanceBranch, bind_eq_ok, require_eq_ok, exists_const] at hadvance
    exact hadvance.1
  rw [hb] at expected
  obtain rfl := Store.advanceBranch_eq_ok hadvance
  obtain ⟨runs, hruns, rfl⟩ := Store.insertRun_eq_ok hinsert
  have dated := Table.insert?_modify (fun run : Run => { run with createdAt := readAt }) hruns
  obtain ⟨absent, rows⟩ := Table.insert?_eq_some dated
  constructor
  · exact (((Write.branchRevised request.branchId revises).writes.then
      (.runAdded dated ⟨rfl, rfl, rfl, rfl, rfl, rfl, rfl⟩)).then (.ledger ledger)).then (.event _ _ _ _)
  · refine ⟨b, _, hb, Option.some.inj expected, absent, ⟨rfl, rfl, rfl, rfl, rfl, rfl, rfl⟩, ?_, ?_, rows,
      Table.get?_modify_found _ hb⟩
    · rfl
    · rfl

theorem Store.Takes.queues {rid : RunId} {run : Run} {b : Branch} (takes : s.Takes rid run b s')
    (queues : s.Queues) (base : s'.Base) : s'.Queues where
  base := base
  owners bid b' rid' hb' active := by
    obtain ⟨run', -, -, token, rows⟩ := takes.runs
    have claimed : ∃ r, s'.runs.get? rid = some r ∧ 0 < r.fencingToken :=
      ⟨run', by rw [rows, if_pos rfl], by omega⟩
    rw [takes.branches] at hb'
    split at hb'
    · cases hb'
      cases active
      exact claimed
    · obtain ⟨r, hr, before⟩ := queues.owners bid b' rid' hb' active
      by_cases same : rid' = rid
      · exact same ▸ claimed
      · exact ⟨r, by rw [rows, if_neg same, hr], before⟩
  waiting rid' r' hr' token := by
    obtain ⟨run', -, -, claimed, rows⟩ := takes.runs
    rw [rows] at hr'
    split at hr'
    · cases hr'
      omega
    · exact queues.waiting rid' r' hr' token

/-- What a step is for the queues. -/
inductive QueueWorld.Moves (w : QueueWorld) : QueueAction → QueueWorld → Prop where
  | accepts {readAt : Time} {owner : OwnerId} {session : SessionId} {request : Submission}
      {fresh : RunId} {b : Branch} {row : Run} {store : Store} :
      w.base.store.Accepts request fresh readAt b row store →
      Moves w (.submit readAt owner session request fresh) { w with
        base := { w.base with store }
        accepted := w.accepted ++
          [{ branch := request.branchId, run := fresh, revision := b.revision + 1 }] }
  | takes {process : ProcessId} {fresh : AttemptId} {rid : RunId} {run : Run} {b : Branch}
      {store : Store} :
      w.base.store.Takes rid run b store →
      Moves w (.claim process fresh) { w with
        base := { w.base with store }
        claimed := if run.fencingToken = 0 then w.claimed ++ [rid] else w.claimed }
  | beside {a : QueueAction} {base : World} :
      w.base.store.Beside base.store →
      (∀ bid b', base.store.branches.get? bid = some b' → w.base.store.branches.get? bid = none ∨
        ∃ b, w.base.store.branches.get? bid = some b ∧ b.revision = b'.revision) →
      Moves w a { w with base }

theorem QueueWorld.moves {w w' : QueueWorld} {a : QueueAction} (queues : w.base.store.Queues)
    (step : w.next host a = some w') : w.Moves a w' ∧ w'.base.store.Queues := by
  have kept : ∀ {D : Discipline} {time : Time} {store : Store},
      (∀ runs run thread, ¬D.scope.takes runs run thread) → Writes D time w.base.store store →
      store.Queues ∧ w.base.store.Beside store := fun idle writes =>
    ⟨writes.invariant (fun _ _ h w => h.write idle w) queues,
      writes.invariant (fun _ _ h w => h.write idle w) (.refl _)⟩
  cases a with
  | submit readAt owner session request fresh =>
      simp only [next] at step
      split at step
      swap
      · cases step
      split at step
      swap
      · cases step
      rename_i store accepted
      cases step
      let D : Discipline := { scope := { takes := fun _ _ _ => False } }
      obtain ⟨writes, b, row, accepts⟩ := submitRead_accepts (D := D) trivial accepted
      refine ⟨?_, (kept (fun _ _ _ h => h) writes).1⟩
      rw [← accepts.expected]
      exact .accepts accepts
  | claim process fresh =>
      simp only [next] at step
      split at step
      · rename_i rid store claimed
        cases step
        have base : store.Base := Writes.invariant (fun _ _ base w => base.write w)
          (claim_writes (D := {}) queues.base.queuedGo (fun _ _ _ _ _ _ _ => trivial) claimed) queues.base
        rcases claim_takes queues.base.queuedGo claimed with ⟨none, -⟩ | ⟨rid', run, b, same, takes⟩
        · cases none
        cases same
        refine ⟨?_, takes.queues queues base⟩
        have first : w.base.store.unclaimed rid = decide (run.fencingToken = 0) := by
          rw [Store.unclaimed, takes.row, Option.any_some]
        rw [first]
        simp only [decide_eq_true_eq]
        exact .takes takes
      · rename_i store claimed
        cases step
        rcases claim_takes queues.base.queuedGo claimed with ⟨-, rfl⟩ | ⟨_, _, _, some, -⟩
        · exact ⟨.beside (.refl _) fun _ b' h => .inr ⟨b', h, rfl⟩, queues⟩
        · cases some
      · cases step
  | other a =>
      simp only [next] at step
      split at step
      swap
      · cases step
      rename_i elsewhere
      obtain ⟨base, turn, rfl⟩ := Option.map_eq_some_iff.mp step
      have writes := (next_writes queues.base.queuedGo queues.base.tree
        (Discipline.elsewhere_meets elsewhere) turn).2
      obtain ⟨queues', beside⟩ := kept (fun _ _ _ h => h) writes
      exact ⟨.beside beside fun bid b' h => writes.revision (fun _ _ _ h => h) (fun h => h) h, queues'⟩

/-! ## The revisions of a branch -/

/-- What holds of the queues in every run. -/
structure QueueWorld.Sound (w : QueueWorld) : Prop where
  queues : w.base.store.Queues
  admitted : ∀ e ∈ w.accepted, ∃ r, w.base.store.runs.get? e.run = some r ∧ r.branchId = e.branch ∧
    r.parentRunId = none
  branches : ∀ e ∈ w.accepted, ∃ b, w.base.store.branches.get? e.branch = some b
  revisions : ∀ bid b, w.base.store.branches.get? bid = some b → ∃ base,
    w.revisions bid = List.range' (base + 1) (w.revisions bid).length ∧
      b.revision = base + (w.revisions bid).length
  claimed : ∀ rid, rid ∈ w.claimed ↔ ∃ r, w.base.store.runs.get? rid = some r ∧ 0 < r.fencingToken

variable {w w' : QueueWorld} {a : QueueAction}

theorem QueueWorld.mem_revisions {e : Admission} (mem : e ∈ w.accepted) :
    e.revision ∈ w.revisions e.branch :=
  List.mem_map_of_mem (List.mem_filter.mpr ⟨mem, by simp⟩)

theorem QueueWorld.Sound.le (sound : w.Sound) {e : Admission} (mem : e ∈ w.accepted) {b : Branch}
    (hb : w.base.store.branches.get? e.branch = some b) : e.revision ≤ b.revision := by
  obtain ⟨base, range, top⟩ := sound.revisions e.branch b hb
  have listed := mem_revisions mem
  rw [range, List.mem_range'_1] at listed
  omega

/-- A branch gives a revision to one submit only. -/
theorem QueueWorld.Sound.apart (sound : w.Sound) {e e' : Admission} (mem : e ∈ w.accepted)
    (mem' : e' ∈ w.accepted) (branch : e.branch = e'.branch) (same : e.revision = e'.revision) :
    e = e' := by
  obtain ⟨b, hb⟩ := sound.branches e mem
  obtain ⟨base, range, -⟩ := sound.revisions e.branch b hb
  have distinct : (w.revisions e.branch).Nodup := range ▸ List.nodup_range'
  refine List.inj_on_of_nodup_map distinct ?_ ?_ same
  · exact List.mem_filter.mpr ⟨mem, by simp⟩
  · exact List.mem_filter.mpr ⟨mem', by simp [branch]⟩

theorem QueueWorld.revisions_append (w : QueueWorld) (e : Admission) (base : World) (bid : BranchId) :
    ({ w with base, accepted := w.accepted ++ [e] } : QueueWorld).revisions bid =
      if e.branch = bid then w.revisions bid ++ [e.revision] else w.revisions bid := by
  simp only [revisions, List.filter_append, List.map_append, List.filter_cons, List.filter_nil,
    decide_eq_true_eq]
  split
  · rfl
  · rw [List.map_nil, List.append_nil]

theorem QueueWorld.Sound.accepts (sound : w.Sound) {request : Submission} {fresh : RunId}
    {readAt : Time} {b : Branch} {row : Run} {store : Store} (queues : store.Queues)
    (accepts : w.base.store.Accepts request fresh readAt b row store) :
    QueueWorld.Sound { w with
      base := { w.base with store }
      accepted := w.accepted ++
        [{ branch := request.branchId, run := fresh, revision := b.revision + 1 }] } := by
  refine { queues, admitted := ?_, branches := ?_, revisions := ?_, claimed := ?_ }
  · intro e mem
    rcases List.mem_append.mp mem with mem | mem
    · obtain ⟨r, hr, here⟩ := sound.admitted e mem
      have other : e.run ≠ fresh := fun same => by
        rw [same, accepts.absent] at hr
        cases hr
      exact ⟨r, by rw [accepts.runs, if_neg other, hr], here⟩
    · cases List.mem_singleton.mp mem
      exact ⟨row, by rw [accepts.runs, if_pos rfl], accepts.here, accepts.parent⟩
  · intro e mem
    rw [accepts.branches]
    split
    · exact ⟨_, rfl⟩
    · rename_i other
      rcases List.mem_append.mp mem with mem | mem
      · exact sound.branches e mem
      · cases List.mem_singleton.mp mem
        exact absurd rfl other
  · intro bid b' hb'
    rw [accepts.branches] at hb'
    rw [revisions_append]
    split at hb'
    · rename_i here
      cases hb'
      obtain ⟨base, range, top⟩ := sound.revisions bid b (here ▸ accepts.branch)
      rw [if_pos here.symm]
      refine ⟨base, ?_, ?_⟩
      · rw [List.length_append, List.length_singleton, List.range'_1_concat, ← range, top]
        congr 2
        dsimp only
        omega
      · rw [List.length_append, List.length_singleton]
        exact (congrArg (· + 1) top).trans (Nat.add_assoc ..)
    · rename_i other
      rw [if_neg fun here => other here.symm]
      exact sound.revisions bid b' hb'
  · intro rid
    rw [sound.claimed rid, accepts.runs]
    split
    · rename_i same
      rw [same, accepts.absent]
      constructor
      · rintro ⟨_, none, -⟩
        cases none
      · rintro ⟨_, some, claimed⟩
        cases some
        rw [accepts.new.token] at claimed
        cases claimed
    · exact Iff.rfl

theorem QueueWorld.Sound.takes (sound : w.Sound) {rid : RunId} {run : Run} {b : Branch} {store : Store}
    (queues : store.Queues) (takes : w.base.store.Takes rid run b store) :
    QueueWorld.Sound { w with
      base := { w.base with store }
      claimed := if run.fencingToken = 0 then w.claimed ++ [rid] else w.claimed } := by
  obtain ⟨run', same, -, token, rows⟩ := takes.runs
  refine { queues, admitted := ?_, branches := ?_, revisions := ?_, claimed := ?_ }
  · intro e mem
    obtain ⟨r, hr, here, parent⟩ := sound.admitted e mem
    rw [rows]
    split
    · rename_i taken
      cases takes.row.symm.trans (taken ▸ hr)
      exact ⟨run', rfl, same.branch.trans here, same.parent.trans parent⟩
    · exact ⟨r, hr, here, parent⟩
  · intro e mem
    rw [takes.branches]
    split
    · exact ⟨_, rfl⟩
    · exact sound.branches e mem
  · intro bid b' hb'
    rw [takes.branches] at hb'
    split at hb'
    · rename_i here
      cases hb'
      exact sound.revisions bid b (here ▸ takes.branch)
    · exact sound.revisions bid b' hb'
  · intro rid'
    have old := sound.claimed rid'
    have mem : (rid' ∈ if run.fencingToken = 0 then w.claimed ++ [rid] else w.claimed) ↔
        rid' ∈ w.claimed ∨ rid' = rid := by
      split
      · rw [List.mem_append, List.mem_singleton]
      · rename_i before
        refine ⟨.inl, Or.rec id fun same => ?_⟩
        exact same ▸ (sound.claimed rid).mpr ⟨run, takes.row, Nat.pos_of_ne_zero before⟩
    rw [mem, old, rows]
    split
    · rename_i taken
      exact iff_of_true (.inr taken) ⟨run', rfl, by omega⟩
    · rename_i other
      rw [or_iff_left other]

theorem QueueWorld.Sound.beside (sound : w.Sound) {base : World} (queues : base.store.Queues)
    (rows : w.base.store.Beside base.store)
    (revisions : ∀ bid b', base.store.branches.get? bid = some b' →
      w.base.store.branches.get? bid = none ∨
        ∃ b, w.base.store.branches.get? bid = some b ∧ b.revision = b'.revision) :
    QueueWorld.Sound { w with base } := by
  refine { queues, admitted := ?_, branches := ?_, revisions := ?_, claimed := ?_ }
  · intro e mem
    obtain ⟨r, hr, here, parent⟩ := sound.admitted e mem
    obtain ⟨r', hr', same, -⟩ := rows.rows e.run r hr
    exact ⟨r', hr', same.branch.trans here, same.parent.trans parent⟩
  · intro e mem
    obtain ⟨b, hb⟩ := sound.branches e mem
    exact rows.branches e.branch b hb
  · intro bid b' hb'
    rcases revisions bid b' hb' with none | ⟨b, hb, same⟩
    · have empty : w.revisions bid = [] := by
        refine List.map_eq_nil_iff.mpr (List.filter_eq_nil_iff.mpr fun e mem here => ?_)
        obtain ⟨b, hb⟩ := sound.branches e mem
        rw [of_decide_eq_true here, none] at hb
        cases hb
      refine ⟨b'.revision, ?_⟩
      change w.revisions bid = List.range' (b'.revision + 1) (w.revisions bid).length ∧
        b'.revision = b'.revision + (w.revisions bid).length
      rw [empty]
      exact ⟨rfl, rfl⟩
    · rw [← same]
      exact sound.revisions bid b hb
  · intro rid
    rw [sound.claimed rid]
    constructor
    · rintro ⟨r, hr, claimed⟩
      obtain ⟨r', hr', -, token, -⟩ := rows.rows rid r hr
      exact ⟨r', hr', token ▸ claimed⟩
    · rintro ⟨r', hr', claimed⟩
      exact rows.claimed rid r' hr' claimed

theorem QueueWorld.Sound.moves (sound : w.Sound) (queues : w'.base.store.Queues) (move : w.Moves a w') :
    w'.Sound := by
  cases move with
  | accepts accepts => exact sound.accepts queues accepts
  | takes takes => exact sound.takes queues takes
  | beside rows revisions => exact sound.beside queues rows revisions

theorem queue_sound (reached : (queueSystem host).Reachable w) : w.Sound := by
  refine reached.invariant (I := QueueWorld.Sound) ?_ fun w a w' _ sound step => ?_
  · rintro w ⟨store, accepted, claimed⟩
    refine { queues := store ▸ .initial, admitted := ?_, branches := ?_, revisions := ?_, claimed := ?_ }
    · rw [accepted]
      exact fun _ mem => nomatch mem
    · rw [accepted]
      exact fun _ mem => nomatch mem
    · rw [store]
      intro bid b hb
      cases hb
    · intro rid
      rw [claimed, store]
      refine iff_of_false (fun mem => nomatch mem) ?_
      rintro ⟨r, hr, -⟩
      cases hr
  · obtain ⟨move, queues⟩ := QueueWorld.moves sound.queues step
    exact sound.moves queues move

/-! ## The order of the claims -/

/-- The accepted submits of a branch are in the order of `claim`. -/
def QueueWorld.Keyed (w : QueueWorld) : Prop :=
  ∀ e ∈ w.accepted, ∀ e' ∈ w.accepted, e.branch = e'.branch → e.revision < e'.revision →
    ∀ r r', w.base.store.runs.get? e.run = some r → w.base.store.runs.get? e'.run = some r' →
      r.createdAt < r'.createdAt ∨ r.createdAt = r'.createdAt ∧ e.run < e'.run

/-- The run of an accepted submit has the same time of creation after a step. -/
theorem QueueWorld.Sound.created (sound : w.Sound) (move : w.Moves a w') {e : Admission}
    (mem : e ∈ w.accepted) {r' : Run} (hr' : w'.base.store.runs.get? e.run = some r') :
    ∃ r, w.base.store.runs.get? e.run = some r ∧ r'.createdAt = r.createdAt := by
  obtain ⟨r, hr, -⟩ := sound.admitted e mem
  refine ⟨r, hr, ?_⟩
  cases move with
  | accepts accepts =>
      rw [accepts.runs] at hr'
      split at hr'
      · rename_i same
        rw [same, accepts.absent] at hr
        cases hr
      · cases hr.symm.trans hr'
        rfl
  | takes takes =>
      obtain ⟨run', same, -, -, rows⟩ := takes.runs
      rw [rows] at hr'
      split at hr'
      · rename_i taken
        cases hr'
        cases takes.row.symm.trans (taken ▸ hr)
        exact same.created
      · cases hr.symm.trans hr'
        rfl
  | beside rows revisions =>
      obtain ⟨r₁, h₁, same, -⟩ := rows.rows e.run r hr
      cases h₁.symm.trans hr'
      exact same.created

theorem QueueWorld.Keyed.moves (keyed : w.Keyed) (sound : w.Sound) (later : w.Later a)
    (move : w.Moves a w') : w'.Keyed := by
  have created : ∀ e ∈ w.accepted, ∀ r', w'.base.store.runs.get? e.run = some r' →
      ∃ r, w.base.store.runs.get? e.run = some r ∧ r'.createdAt = r.createdAt :=
    fun e mem r' hr' => sound.created move mem hr'
  have old : ∀ e ∈ w.accepted, ∀ e' ∈ w.accepted, e.branch = e'.branch → e.revision < e'.revision →
      ∀ r r', w'.base.store.runs.get? e.run = some r → w'.base.store.runs.get? e'.run = some r' →
        r.createdAt < r'.createdAt ∨ r.createdAt = r'.createdAt ∧ e.run < e'.run := by
    intro e mem e' mem' branch less r r' hr hr'
    obtain ⟨r₁, h₁, same⟩ := created e mem r hr
    obtain ⟨r₁', h₁', same'⟩ := created e' mem' r' hr'
    rw [same, same']
    exact keyed e mem e' mem' branch less r₁ r₁' h₁ h₁'
  cases move with
  | takes takes => exact old
  | beside rows revisions => exact old
  | @accepts readAt owner session request fresh b row store accepts =>
      intro e mem e' mem' branch less r r' hr hr'
      rcases List.mem_append.mp mem with mem | mem
      · rcases List.mem_append.mp mem' with mem' | mem'
        · exact old e mem e' mem' branch less r r' hr hr'
        · -- the new submit comes after the earlier ones
          cases List.mem_singleton.mp mem'
          obtain ⟨r₁, h₁, same⟩ := created e mem r hr
          rw [accepts.runs, if_pos rfl] at hr'
          cases hr'
          rw [same, accepts.new.created]
          exact later e mem branch r₁ h₁
      · cases List.mem_singleton.mp mem
        rcases List.mem_append.mp mem' with mem' | mem'
        · have here : e'.branch = request.branchId := branch.symm
          have le := sound.le mem' (here ▸ accepts.branch)
          exact absurd less (by dsimp only; omega)
        · cases List.mem_singleton.mp mem'
          exact absurd less (lt_irrefl _)

/-- A claim for the first time takes the earliest run of the branch that can still be claimed. -/
theorem QueueWorld.Sound.first (sound : w.Sound) (keyed : w.Keyed) {rid : RunId} {run : Run} {b : Branch}
    {store : Store} (takes : w.base.store.Takes rid run b store) (token : run.fencingToken = 0)
    {e e' : Admission} (mem : e ∈ w.accepted) (mem' : e' ∈ w.accepted) (branch : e.branch = e'.branch)
    (less : e.revision < e'.revision) (same : e'.run = rid) :
    e.run ∈ w.claimed ∨ ∃ r, w.base.store.runs.get? e.run = some r ∧ r.status.terminal = true := by
  obtain ⟨r, hr, here, parent⟩ := sound.admitted e mem
  obtain ⟨r', hr', here', -⟩ := sound.admitted e' mem'
  subst same
  cases takes.row.symm.trans hr'
  by_cases claimed : r.fencingToken = 0
  swap
  · exact .inl ((sound.claimed e.run).mpr ⟨r, hr, Nat.pos_of_ne_zero claimed⟩)
  rcases sound.queues.waiting e.run r hr claimed with queued | ended
  swap
  · exact .inr ⟨r, hr, ended⟩
  -- the loop has passed it, so the branch has an owner, and that is the run which is claimed
  have ahead : ¬Store.createdBefore (e'.run, run) (e.run, r) := by
    have key := keyed e mem e' mem' branch less r run hr hr'
    unfold Store.createdBefore
    rintro (before | ⟨at', before⟩)
    · rcases key with key | ⟨key, -⟩
      · exact absurd (key.trans before) (lt_irrefl _)
      · exact absurd (key ▸ before) (lt_irrefl _)
    · rcases key with key | ⟨-, key⟩
      · exact absurd (at' ▸ key) (lt_irrefl _)
      · exact absurd (key.trans_le before) (lt_irrefl _)
  obtain ⟨busy, -⟩ := takes.first e.run r hr queued (here.trans (branch.trans here'.symm)) parent ahead
  obtain ⟨r₁, h₁, before⟩ := sound.queues.owners run.branchId b e'.run takes.branch
    (takes.free.resolve_left busy)
  cases takes.row.symm.trans h₁
  omega

theorem QueueWorld.Fifo.moves (fifo : w.Fifo) (keyed : w.Keyed) (sound : w.Sound)
    (move : w.Moves a w') : w'.Fifo := by
  cases move with
  | @accepts readAt owner session request fresh b row store accepts =>
      have unclaimed : fresh ∉ w.claimed := fun mem => by
        obtain ⟨r, hr, -⟩ := (sound.claimed fresh).mp mem
        rw [accepts.absent] at hr
        cases hr
      constructor
      · refine fifo.order.imp_of_mem fun {c d} hc hd order e mem e' mem' same same' => ?_
        rcases List.mem_append.mp mem with mem | mem
        · rcases List.mem_append.mp mem' with mem' | mem'
          · exact order e mem e' mem' same same'
          · cases List.mem_singleton.mp mem'
            cases same'
            exact absurd hd unclaimed
        · cases List.mem_singleton.mp mem
          cases same
          exact absurd hc unclaimed
      · intro e mem e' mem' branch less claimed
        rcases List.mem_append.mp mem' with mem' | mem'
        swap
        · cases List.mem_singleton.mp mem'
          exact absurd claimed unclaimed
        rcases List.mem_append.mp mem with mem | mem
        · refine (fifo.passed e mem e' mem' branch less claimed).imp_right fun ⟨r, hr, ended⟩ => ?_
          refine ⟨r, ?_, ended⟩
          have other : e.run ≠ fresh := fun same => by
            rw [same, accepts.absent] at hr
            cases hr
          rw [accepts.runs, if_neg other, hr]
        · cases List.mem_singleton.mp mem
          have here : e'.branch = request.branchId := branch.symm
          have le := sound.le mem' (here ▸ accepts.branch)
          exact absurd less (by dsimp only; omega)
  | @takes process fresh rid run b store takes =>
      obtain ⟨run', -, -, -, rows⟩ := takes.runs
      have ended : ∀ e : Admission, (∃ r, w.base.store.runs.get? e.run = some r ∧
          r.status.terminal = true) → ∃ r, store.runs.get? e.run = some r ∧ r.status.terminal = true := by
        rintro e ⟨r, hr, ended⟩
        refine ⟨r, ?_, ended⟩
        have other : e.run ≠ rid := fun same => by
          cases takes.row.symm.trans (same ▸ hr)
          rw [takes.queued] at ended
          cases ended
        rw [rows, if_neg other, hr]
      by_cases token : run.fencingToken = 0
      swap
      · rw [if_neg token]
        exact ⟨fifo.order, fun e mem e' mem' branch less claimed =>
          (fifo.passed e mem e' mem' branch less claimed).imp_right (ended e)⟩
      rw [if_pos token]
      have unclaimed : rid ∉ w.claimed := fun mem => by
        obtain ⟨r, hr, claimed⟩ := (sound.claimed rid).mp mem
        cases takes.row.symm.trans hr
        omega
      constructor
      · refine List.pairwise_append.mpr ⟨fifo.order, List.pairwise_singleton .., ?_⟩
        intro c hc d hd e mem e' mem' same same' branch
        cases List.mem_singleton.mp hd
        rcases lt_trichotomy e.revision e'.revision with less | equal | less
        · exact less
        · cases sound.apart mem mem' branch equal
          exact absurd (same' ▸ same ▸ hc) unclaimed
        · rcases fifo.passed e' mem' e mem branch.symm less (same ▸ hc) with claimed | ⟨r, hr, ended⟩
          · exact absurd (same' ▸ claimed) unclaimed
          · cases takes.row.symm.trans (same' ▸ hr)
            rw [takes.queued] at ended
            cases ended
      · intro e mem e' mem' branch less claimed
        have held : e.run ∈ w.claimed ∨ ∃ r, w.base.store.runs.get? e.run = some r ∧
            r.status.terminal = true := by
          rcases List.mem_append.mp claimed with claimed | here
          · exact fifo.passed e mem e' mem' branch less claimed
          · exact sound.first keyed takes token mem mem' branch less (List.mem_singleton.mp here)
        exact held.imp (List.mem_append_left _) (ended e)
  | beside rows revisions =>
      refine ⟨fifo.order, fun e mem e' mem' branch less claimed => ?_⟩
      refine (fifo.passed e mem e' mem' branch less claimed).imp_right fun ⟨r, hr, ended⟩ => ?_
      obtain ⟨r', hr', -, -, kept⟩ := rows.rows e.run r hr
      exact ⟨r', hr', kept ended⟩

/-- In every run the accepted submits of a branch get consecutive revisions.  In a run in which every
accepted submit comes after the earlier ones of its branch, the runs of a branch are first claimed in the
order of their revisions. -/
theorem branch_fifo (host : Host) :
    (∀ w, (queueSystem host).Reachable w → ∀ bid b, w.base.store.branches.get? bid = some b →
      ∃ base, w.revisions bid = List.range' (base + 1) (w.revisions bid).length ∧
        b.revision = base + (w.revisions bid).length) ∧
    ∀ w, ((queueSystem host).restrict QueueWorld.Later).Reachable w → w.Fifo := by
  constructor
  · exact fun w reached => (queue_sound reached).revisions
  · intro w reached
    refine (reached.invariant (I := fun w => w.Keyed ∧ w.Fifo) ?_ ?_).2
    · rintro w ⟨-, accepted, claimed⟩
      refine ⟨?_, ?_, ?_⟩
      · intro e mem
        rw [accepted] at mem
        cases mem
      · rw [claimed]
        exact .nil
      · intro e mem
        rw [accepted] at mem
        cases mem
    · rintro w a w' before ⟨keyed, fifo⟩ ⟨later, step⟩
      have sound := queue_sound before.of_restrict
      obtain ⟨move, -⟩ := QueueWorld.moves sound.queues step
      exact ⟨keyed.moves sound later move, fifo.moves keyed sound move⟩

namespace Sample

/-- Two submits read the same time, the later one draws the greater id, and both runs are worked. -/
def inOrder : List QueueAction :=
  [.other (.addBranch 1 { sessionId := 1, graphThreadKey := 5 }),
    .submit 0 1 1 ⟨1, 1, 1, 1, "first", ∅, 1000000⟩ 10,
    .submit 0 1 1 ⟨1, 1, 2, 1, "second", ∅, 1000000⟩ 11,
    .claim ⟨1, 1⟩ 20,
    .other (.settle machine { context 20 1 with inputRevision := 2 } { final with inputRevision := 2 }),
    .claim ⟨1, 1⟩ 21]

end Sample

/-- They are claimed in the order of their revisions. -/
theorem branch_fifo_worked : ∃ w,
    ((queueSystem Sample.host).restrict QueueWorld.Later).Reachable w ∧
      w.accepted = [⟨1, 10, 2⟩, ⟨1, 11, 3⟩] ∧ w.claimed = [10, 11] ∧ w.Fifo := by
  have run : (System.runsIf (QueueWorld.next Sample.host) QueueWorld.Later { base := Sample.start }
      Sample.inOrder).any (fun w => decide (w.accepted = [⟨1, 10, 2⟩, ⟨1, 11, 3⟩]) &&
        decide (w.claimed = [10, 11])) = true := by decide
  simp only [Option.any_eq_true, Bool.and_eq_true, decide_eq_true_eq] at run
  obtain ⟨w, ran, accepted, claimed⟩ := run
  have init : ((queueSystem Sample.host).restrict QueueWorld.Later).Reachable { base := Sample.start } :=
    .init ⟨rfl, rfl, rfl⟩
  have reached := System.Reachable.runsIf init ran
  exact ⟨w, reached, accepted, claimed, (branch_fifo Sample.host).2 w reached⟩

namespace Sample

/-- Two submits read the same time, the later one draws the smaller id, and both runs are worked. -/
def overtaken : List QueueAction :=
  [.other (.addBranch 1 { sessionId := 1, graphThreadKey := 5 }),
    .submit 0 1 1 ⟨1, 1, 1, 1, "first", ∅, 1000000⟩ 11,
    .submit 0 1 1 ⟨1, 1, 2, 1, "second", ∅, 1000000⟩ 10,
    .claim ⟨1, 1⟩ 20,
    .other (.settle machine { context 20 1 with inputRevision := 3 } { final with inputRevision := 3 }),
    .claim ⟨1, 1⟩ 21]

end Sample

/-- The run that was accepted as the second is claimed as the first. -/
theorem fifo_overtaken : ¬∀ host w, (queueSystem host).Reachable w → w.Fifo := by
  intro fifo
  have run : (System.runs (QueueWorld.next Sample.host) { base := Sample.start } Sample.overtaken).any
      (fun w => decide (w.claimed = [10, 11]) && decide (w.accepted = [⟨1, 11, 2⟩, ⟨1, 10, 3⟩])) =
        true := by decide
  simp only [Option.any_eq_true, Bool.and_eq_true, decide_eq_true_eq] at run
  obtain ⟨w, hw, claimed, accepted⟩ := run
  have init : (queueSystem Sample.host).Reachable { base := Sample.start } := .init ⟨rfl, rfl, rfl⟩
  have order := (fifo _ w (System.Reachable.runs init hw)).order
  rw [claimed, accepted] at order
  have less := List.rel_of_pairwise_cons order (List.mem_singleton.mpr rfl) ⟨1, 10, 3⟩ (by simp)
    ⟨1, 11, 2⟩ (by simp) rfl rfl rfl
  exact absurd less (by decide)

end MiHarness

import MiHarness.Scheduler.Children

/-!
# Cancellation is final

Once `cancel` has gone through a tree, every run of it is being cancelled or has ended.  Such a
run does nothing more: it is not claimed, starts and registers no operation and delegates to no
one, so the tree does not grow and stays as it is.
-/

namespace MiHarness

open Library

variable {D : Discipline} {now : Time} {s s' t : Store} {host : Host}

/-! ## One run -/

/-- What happens to a run that does nothing more. -/
structure Store.Halts (rid : RunId) (s s' : Store) : Prop where
  run : ∃ r r', s.runs.get? rid = some r ∧ s'.runs.get? rid = some r' ∧
    (r'.status = r.status ∨ r.status = .cancelling ∧ r'.status = .cancelled) ∧
    r'.attemptId = r.attemptId ∧ r'.fencingToken = r.fencingToken
  operations : ∀ oid o', s'.operations.get? oid = some o' → o'.runId = rid →
    ∃ o, s.operations.get? oid = some o ∧ o.runId = rid
  grants : ∀ gid g', s'.grants.get? gid = some g' → g'.runId = rid →
    ∃ g, s.grants.get? gid = some g ∧ g.runId = rid ∧ g'.remaining = g.remaining ∧
      g'.consumedAt = g.consumedAt
  children : ∀ key d, s'.dependencies.get? key = some d → d.parentId = rid →
    s.dependencies.get? key = some d

theorem Store.Halts.refl {rid : RunId} {r : Run} (h : s.runs.get? rid = some r) : s.Halts rid s where
  run := ⟨r, r, h, h, .inl rfl, rfl, rfl⟩
  operations _ o ho owner := ⟨o, ho, owner⟩
  grants _ g hg owner := ⟨g, hg, owner, rfl, rfl⟩
  children _ _ hd _ := hd

theorem Store.Halts.trans {rid : RunId} (h : s.Halts rid t) (k : t.Halts rid s') : s.Halts rid s' where
  run := by
    obtain ⟨r, r₁, hr, h₁, status, attempt, token⟩ := h.run
    obtain ⟨r₂, r', h₂, hr', status', attempt', token'⟩ := k.run
    cases h₁.symm.trans h₂
    refine ⟨r, r', hr, hr', ?_, attempt'.trans attempt, token'.trans token⟩
    rcases status' with status' | ⟨live, ends⟩
    · rcases status with status | ⟨live, ended⟩
      · exact .inl (status'.trans status)
      · exact .inr ⟨live, status'.trans ended⟩
    · rcases status with status | ⟨-, ended⟩
      · exact .inr ⟨status ▸ live, ends⟩
      · rw [live] at ended
        cases ended
  operations oid o' ho' owner' := by
    obtain ⟨o₁, h₁, owner⟩ := k.operations oid o' ho' owner'
    exact h.operations oid o₁ h₁ owner
  grants gid g' hg' owner' := by
    obtain ⟨g₁, h₁, owner₁, remaining₁, consumed₁⟩ := k.grants gid g' hg' owner'
    obtain ⟨g, hg, owner, remaining, consumed⟩ := h.grants gid g₁ h₁ owner₁
    exact ⟨g, hg, owner, remaining₁.trans remaining, consumed₁.trans consumed⟩
  children key d hd owner := h.children key d (k.children key d hd owner) owner

/-- The row of a run that has stopped. -/
theorem RunEffect.stopped {rid : RunId} {r r' : Run} (e : RunEffect D now s s' rid r')
    (h : s.runs.get? rid = some r) (stopped : r.status.stopping) :
    (r'.status = r.status ∨ r.status = .cancelling ∧ r'.status = .cancelled) ∧
      r'.attemptId = r.attemptId ∧ r'.fencingToken = r.fencingToken := by
  rcases stopped with cancelling | ended
  · cases e with
    | kept hr =>
        cases h.symm.trans hr
        exact ⟨.inl rfl, rfl, rfl⟩
    | added absent => cases h.symm.trans absent
    | claimed hr queued =>
        cases h.symm.trans hr
        rw [cancelling] at queued
        cases queued
    | moved hr m =>
        cases h.symm.trans hr
        refine ⟨.inl ((m.stays_cancelling cancelling).trans cancelling.symm), ?_⟩
        cases m <;> exact ⟨rfl, rfl⟩
    | released hr review =>
        cases h.symm.trans hr
        rw [cancelling] at review
        cases review
    | finished hr _ _ _ _ _ finality =>
        cases h.symm.trans hr
        exact ⟨.inr ⟨cancelling, finality cancelling⟩, rfl, rfl⟩
  · rw [e.terminal h ended]
    exact ⟨.inl rfl, rfl, rfl⟩

theorem Store.Running.not_stopped {rid : RunId} {r : Run} (running : s.Running rid)
    (h : s.runs.get? rid = some r) : ¬r.status.stopping := by
  obtain ⟨r', hr', status⟩ := running
  cases h.symm.trans hr'
  rintro (cancelling | ended)
  · rw [status] at cancelling
    cases cancelling
  · rw [status] at ended
    cases ended

/-- A run that has stopped does nothing more. -/
theorem Write.halts (w : Write D now s s') {rid : RunId} {r : Run} (h : s.runs.get? rid = some r)
    (stopped : r.status.stopping) : s.Halts rid s' where
  run := by
    obtain ⟨r', hr', -⟩ := w.run_stays h
    exact ⟨r, r', h, hr', (w.runEffect hr').stopped h stopped⟩
  operations oid o' ho' owner := by
    subst owner
    cases w.operationEffect ho' with
    | kept ho => exact ⟨o', ho, rfl⟩
    | added _ running => exact absurd stopped (running.not_stopped h)
    | moved ho => exact ⟨_, ho, rfl⟩
    | released ho => exact ⟨_, ho, rfl⟩
    | closed ho => exact ⟨_, ho, rfl⟩
  grants gid g' hg' owner := by
    subst owner
    cases w.grantEffect hg' with
    | kept hg => exact ⟨g', hg, rfl, rfl, rfl⟩
    | added _ running => exact absurd stopped (running.not_stopped h)
    | revoked hg => exact ⟨_, hg, rfl, rfl, rfl⟩
    | consumed _ running => exact absurd stopped (running.not_stopped h)
  children key d hd owner := by
    subst owner
    rcases w.dependencies with same | ⟨key', new, child, parent, hinsert, -, -, hparent, -, running, -⟩
    · exact same ▸ hd
    rw [(Table.insert?_eq_some hinsert).2] at hd
    split at hd
    · cases hd
      exact absurd stopped (Store.Running.not_stopped ⟨parent, hparent, running⟩ h)
    · exact hd

theorem Store.Halts.stopped {rid : RunId} {r : Run} (halts : s.Halts rid s')
    (h : s.runs.get? rid = some r) (stopped : r.status.stopping) :
    ∃ r', s'.runs.get? rid = some r' ∧ r'.status.stopping := by
  obtain ⟨q, r', hq, hr', status, -⟩ := halts.run
  cases h.symm.trans hq
  refine ⟨r', hr', ?_⟩
  rcases status with status | ⟨-, ended⟩
  · exact status ▸ stopped
  · exact .inr (by rw [ended]; rfl)

theorem Writes.halts (w : Writes D now s s') {rid : RunId} {r : Run} (h : s.runs.get? rid = some r)
    (stopped : r.status.stopping) : s.Halts rid s' := by
  induction w with
  | refl => exact .refl h
  | tail _ w ih =>
      obtain ⟨r₁, h₁, stopped₁⟩ := ih.stopped h stopped
      exact ih.trans (w.halts h₁ stopped₁)

/-! ## The tree -/

/-- Every run of a tree has stopped. -/
def Store.TreeStopped (s : Store) (root : RunId) : Prop :=
  ∀ rid, Descends s.childIds root rid → ∃ r, s.runs.get? rid = some r ∧ r.status.stopping

/-- A tree whose runs have stopped does not grow. -/
theorem Store.TreeStopped.descends {root rid : RunId} (stopped : s.TreeStopped root)
    (w : Writes D now s s') (h : Descends s'.childIds root rid) : Descends s.childIds root rid := by
  induction h with
  | root => exact .root
  | next _ hchild ih =>
      obtain ⟨r, hr, halted⟩ := stopped _ ih
      obtain ⟨key, d, hd, owner, same⟩ := Store.mem_childIds.mp hchild
      exact .next ih (Store.mem_childIds.mpr
        ⟨key, d, (w.halts hr halted).children key d hd owner, owner, same⟩)

theorem Store.TreeStopped.writes {root : RunId} (stopped : s.TreeStopped root)
    (w : Writes D now s s') : s'.TreeStopped root := by
  intro rid h
  obtain ⟨r, hr, halted⟩ := stopped rid (stopped.descends w h)
  exact (w.halts hr halted).stopped hr halted

/-- An accepted cancellation stops the tree. -/
theorem cancel_stops {owner : OwnerId} {root : RunId} {reason : String} (tree : s.Tree)
    (h : cancel s owner root reason now = .ok s') : s'.TreeStopped root := by
  have dependencies := (cancel_status tree h).1.dependencies
  obtain ⟨row, howned, hloop⟩ := bind_eq_ok.mp h
  have loop := foldlM_each
    (R := fun t u => ∀ rid r, t.runs.get? rid = some r → r.status.stopping →
      ∃ r', u.runs.get? rid = some r' ∧ r'.status.stopping)
    (P := fun t rid run => t.runs.get? rid = some run)
    (Q := fun t e => ∃ r, t.runs.get? e.1 = some r ∧ r.status.stopping)
    (fun _ _ r hr halted => ⟨r, hr, halted⟩)
    (fun _ _ _ h k rid r hr halted => by
      obtain ⟨r₁, h₁, halted₁⟩ := h rid r hr halted
      exact k rid r₁ h₁ halted₁)
    (fun t u e k ⟨r, hr, halted⟩ => k e.1 r hr halted)
    (tree.descendants_nodup root) hloop (fun e he => (Store.mem_descendants.mp he).2)
    fun e _ t t' _ current hturn => by
      obtain ⟨others, -⟩ := cancelRun_frame hturn
      obtain ⟨r', hr', halted, -⟩ := cancelRun_status current hturn
      refine ⟨fun rid r hr stopped => ?_, ⟨r', hr', halted⟩,
        fun e' _ hne row => (others e'.1 hne).trans row⟩
      by_cases here : rid = e.1
      · exact ⟨r', here ▸ hr', halted⟩
      · exact ⟨r, (others rid here).trans hr, stopped⟩
  have ids : s'.childIds = s.childIds := by
    funext rid
    rw [Store.childIds, Store.childIds, dependencies]
  intro rid member
  rw [ids] at member
  -- the walk of `cancel` reaches every run of the tree, and each has a row
  have reached : rid ∈ s.descendantIds root ∧ ∃ r, s.runs.get? rid = some r := by
    induction member with
    | root =>
        obtain ⟨r, hr, -⟩ := bind_eq_ok.mp howned
        exact ⟨mem_worklist_root _ _, r, Store.run_eq_ok.mp hr⟩
    | next _ hchild ih =>
        obtain ⟨key, d, hd, -, same⟩ := Store.mem_childIds.mp hchild
        obtain ⟨-, child, -, hrow, -⟩ := tree.rows hd
        exact ⟨tree.descendantIds_closed ih.1 hchild, child, same ▸ hrow⟩
  obtain ⟨hid, r, hr⟩ := reached
  exact loop.2 (rid, r) (Store.mem_descendants.mpr ⟨hid, hr⟩)

/-! ## Runs of the system -/

/-- Once a cancellation is accepted, no step ever does anything more for a run of the tree: it is
being cancelled or has ended, is not claimed, gets no new operation, consumes no grant and
creates no child, and its status can only go from cancelling to cancelled. -/
theorem cancel_final {w w₁ w₂ w₃ : World} {owner : OwnerId} {root : RunId} {reason : String}
    {a : Action} (reach : (system host).Reachable w)
    (accepted : (system host).step w (.cancel owner root reason) w₁)
    (later : (system host).Path w₁ w₂) (step : (system host).step w₂ a w₃) {rid : RunId}
    (member : Descends w₃.store.childIds root rid) :
    (∃ r, w₂.store.runs.get? rid = some r ∧ r.status.stopping) ∧ w₂.store.Halts rid w₃.store := by
  have first : w₁.store.TreeStopped root := by
    rcases World.next_perform accepted with ⟨_, same, -⟩ | ⟨-, store, hperform, rfl⟩
    · cases same
    · exact cancel_stops (reachable_base reach).tree hperform
  have reach₁ := reach.step accepted
  have stopped : w₂.store.TreeStopped root :=
    later.stable (P := fun w => w.store.TreeStopped root)
      (fun u b u' hu stopped hstep =>
        stopped.writes (step_writes hu (Discipline.meets_free ..) hstep).2) reach₁ first
  have writes := (step_writes (reach₁.path later) (Discipline.meets_free ..) step).2
  obtain ⟨r, hr, halted⟩ := stopped rid (stopped.descends writes member)
  exact ⟨⟨r, hr, halted⟩, writes.halts hr halted⟩

/-- Run `10` is cancelled while it runs, with the run it delegated to; then its worker gives up. -/
theorem cancel_final_delegated : ∃ (w₂ w₃ : World) (r : Run), w₃.store.childIds 10 = [11] ∧
    w₂.store.runs.get? 10 = some r ∧ r.status = .cancelling ∧
    w₂.store.Halts 10 w₃.store ∧ w₂.store.Halts 11 w₃.store := by
  let next := World.next Sample.host
  have run : (System.runs next Sample.start Sample.delegated).any (fun w =>
      (next w (.cancel 1 10 "stop")).any fun w₁ =>
        (w₁.store.runs.get? 10).any (fun r => decide (r.status = .cancelling)) &&
        (next w₁ (.settle Sample.machine (Sample.context 20 1)
          { kind := .cancelAck, runId := 10, inputRevision := 2 })).any fun w₃ =>
            decide (w₃.store.childIds 10 = [11])) = true := by decide
  simp only [Option.any_eq_true, Bool.and_eq_true, decide_eq_true_eq] at run
  obtain ⟨w, hw, w₁, h₁, ⟨r, hr, status⟩, w₃, h₃, children⟩ := run
  have reach := Sample.reachable hw
  have child : Descends w₃.store.childIds 10 11 := .next .root (by rw [children]; simp)
  exact ⟨w₁, w₃, r, children, hr, status, (cancel_final reach h₁ .refl h₃ .root).2,
    (cancel_final reach h₁ .refl h₃ child).2⟩

end MiHarness

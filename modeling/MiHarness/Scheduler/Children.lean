import MiHarness.Scheduler.Terminal

/-!
# Parents and children

A run should end after its children.  `settle` checks this of a completed and of a cancelled
run, and so does `finishIdle`; it does not check it of a run that fails, and `cancel` ends a
queued run without looking at its children.  The order holds in the runs that avoid these two
cases.

`cancel` ends the runs of a tree from the root down, so in the middle of its transaction a
parent has ended before its child.  `cancel_status` says which runs of the tree have ended when
it is through.
-/

namespace MiHarness

open Library

variable {D : Discipline} {now : Time} {s s' t : Store} {host : Host}

/-! ## What `cancel` ends -/

theorem Store.cancellable_congr {rid : RunId} (status : RunStatus)
    (dependencies : t.dependencies = s.dependencies)
    (runs : ∀ id, (t.runs.get? id).isSome = (s.runs.get? id).isSome)
    (started : t.started rid = s.started rid) :
    t.cancellable rid status = s.cancellable rid status := by
  have children : (t.children rid).isEmpty = (s.children rid).isEmpty := by
    have ids : t.childIds rid = s.childIds rid := by rw [childIds, childIds, dependencies]
    rw [Bool.eq_iff_iff, List.isEmpty_iff, List.isEmpty_iff, Store.children, Store.children, ids,
      List.filterMap_eq_nil_iff, List.filterMap_eq_nil_iff]
    refine forall₂_congr fun id _ => ?_
    rw [← Option.isNone_iff_eq_none, ← Option.isNone_iff_eq_none, ← Option.not_isSome,
      ← Option.not_isSome, Option.isSome_map, Option.isSome_map, runs id]
  rw [cancellable, cancellable, children, started]

theorem Store.started_congr {rid : RunId}
    (operations : ∀ oid o, o.runId = rid →
      (t.operations.get? oid = some o ↔ s.operations.get? oid = some o)) :
    t.started rid = s.started rid := by
  rw [Bool.eq_iff_iff, started, started, Table.any_iff, Table.any_iff]
  refine exists₂_congr fun oid o => ?_
  simp only [Bool.and_eq_true, decide_eq_true_eq]
  exact and_congr_left fun h => operations oid o h.1

/-- The run whose turn it is has stopped afterwards, and whether it has ended. -/
theorem cancelRun_status {reason : String} {rid : RunId} {run : Run}
    (current : s.runs.get? rid = some run) (h : cancelRun s reason rid run now = .ok s') :
    ∃ r', s'.runs.get? rid = some r' ∧ r'.status.stopping ∧ (r'.status.terminal = true ↔
      run.status.terminal = true ∨ s.cancellable rid run.status = true) := by
  unfold cancelRun at h
  split at h
  · rename_i ended
    cases h
    exact ⟨run, current, .inr ended, iff_of_true ended (.inl ended)⟩
  rename_i live
  obtain ⟨t, hflag, h⟩ := bind_eq_ok.mp h
  obtain ⟨-, -, rfl⟩ := Store.updateRun_eq_ok hflag
  obtain ⟨events, closed⟩ := cancelRun_prefix s now rid reason
    (RunPatch.apply { cancelRequested := some true })
  rw [closed] at h
  dsimp only at h
  have same : Store.cancellable { s with
      runs := s.runs.modify rid (RunPatch.apply { cancelRequested := some true }), events
      grants := s.grants.mapRows fun id g => g.revoke rid [] id
      interactions := s.interactions.mapRows fun _ i => i.close rid reason } rid run.status =
      s.cancellable rid run.status := by
    refine Store.cancellable_congr run.status rfl (fun id => ?_) rfl
    rw [Table.get?_modify]
    split
    · rw [Option.isSome_map]
    · rfl
  rw [same] at h
  split at h
  · rename_i idle
    refine ⟨_, by
      rw [transition_runs h, Table.get?_modify_self, Table.get?_modify_self, current]
      rfl, .inr rfl, iff_of_true rfl (.inr idle)⟩
  rename_i busy
  split at h
  · refine ⟨_, by
      rw [transition_runs h, Table.get?_modify_self, Table.get?_modify_self, current]
      rfl, .inl rfl, iff_of_false (by simp [RunPatch.apply, RunStatus.terminal]) ?_⟩
    exact not_or.mpr ⟨live, busy⟩
  · rename_i already
    cases h
    refine ⟨RunPatch.apply { cancelRequested := some true } run, by
      rw [Table.get?_modify_self, current]
      rfl, .inl (not_not.mp already), ?_⟩
    exact iff_of_false live (not_or.mpr ⟨live, busy⟩)

/-- What a turn of `cancel` does to the runs of a tree of which it ends the runs in `K`. -/
structure Cancels (K : RunId → Prop) (s t : Store) : Prop where
  dependencies : t.dependencies = s.dependencies
  back : ∀ rid r', t.runs.get? rid = some r' → ∃ r, s.runs.get? rid = some r ∧
    (r'.status.terminal = true → r.status.terminal = true ∨ K rid)
  forth : ∀ rid r, s.runs.get? rid = some r → ∃ r', t.runs.get? rid = some r' ∧
    (r.status.terminal = true → r'.status.terminal = true)

variable {K : RunId → Prop}

theorem Cancels.refl : Cancels K s s where
  dependencies := rfl
  back _ r h := ⟨r, h, .inl⟩
  forth _ r h := ⟨r, h, id⟩

theorem Cancels.trans {u : Store} (h : Cancels K s t) (k : Cancels K t u) : Cancels K s u where
  dependencies := k.dependencies.trans h.dependencies
  back rid r'' hr'' := by
    obtain ⟨r', hr', back'⟩ := k.back rid r'' hr''
    obtain ⟨r, hr, back⟩ := h.back rid r' hr'
    exact ⟨r, hr, fun ended => (back' ended).elim back .inr⟩
  forth rid r hr := by
    obtain ⟨r', hr', forth⟩ := h.forth rid r hr
    obtain ⟨r'', hr'', forth'⟩ := k.forth rid r' hr'
    exact ⟨r'', hr'', forth' ∘ forth⟩

theorem Cancels.isSome (h : Cancels K s t) (rid : RunId) :
    (t.runs.get? rid).isSome = (s.runs.get? rid).isSome := by
  rw [Bool.eq_iff_iff, Option.isSome_iff_exists, Option.isSome_iff_exists]
  constructor
  · rintro ⟨r', hr'⟩
    obtain ⟨r, hr, -⟩ := h.back rid r' hr'
    exact ⟨r, hr⟩
  · rintro ⟨r, hr⟩
    obtain ⟨r', hr', -⟩ := h.forth rid r hr
    exact ⟨r', hr'⟩

/-- The runs of a tree that `cancel` ends at once. -/
def Store.EndsAtOnce (s : Store) (root rid : RunId) : Prop :=
  ∃ run, (rid, run) ∈ s.descendants root ∧ s.cancellable rid run.status = true

theorem cancelRun_cancels {reason : String} {root rid : RunId} {run : Run}
    (member : (rid, run) ∈ s.descendants root) (current : t.runs.get? rid = some run)
    (same : t.cancellable rid run.status = s.cancellable rid run.status)
    (h : cancelRun t reason rid run now = .ok s') : Cancels (s.EndsAtOnce root) t s' := by
  obtain ⟨others, dependencies, -⟩ := cancelRun_frame h
  obtain ⟨r', hr', -, ended⟩ := cancelRun_status current h
  refine ⟨dependencies, fun id q' hq' => ?_, fun id q hq => ?_⟩
  · by_cases hid : id = rid
    · subst hid
      cases hr'.symm.trans hq'
      refine ⟨run, current, fun ends => (ended.mp ends).imp_right fun cancellable => ?_⟩
      exact ⟨run, member, same ▸ cancellable⟩
    · exact ⟨q', (others id hid).symm.trans hq', .inl⟩
  · by_cases hid : id = rid
    · subst hid
      cases current.symm.trans hq
      exact ⟨r', hr', fun ends => ended.mpr (.inl ends)⟩
    · exact ⟨q, (others id hid).trans hq, fun ended => ended⟩

/-- After `cancel` a run has ended just if it had ended before or `cancel` ends it at once. -/
theorem cancel_status {owner : OwnerId} {root : RunId} {reason : String} (tree : s.Tree)
    (h : cancel s owner root reason now = .ok s') : Cancels (s.EndsAtOnce root) s s' ∧
      ∀ rid, s.EndsAtOnce root rid → ∃ r', s'.runs.get? rid = some r' ∧
        r'.status.terminal = true := by
  obtain ⟨_, -, h⟩ := bind_eq_ok.mp h
  have loop := foldlM_each (R := Cancels (s.EndsAtOnce root))
    (P := fun t rid run => t.runs.get? rid = some run ∧ t.started rid = s.started rid)
    (Q := fun t e => s.cancellable e.1 e.2.status = true →
      ∃ r', t.runs.get? e.1 = some r' ∧ r'.status.terminal = true)
    (fun _ => .refl) (fun _ _ _ => .trans) (fun t u e k ends cancellable => ?_)
    (tree.descendants_nodup root) h (fun e he => ⟨(Store.mem_descendants.mp he).2, rfl⟩)
    fun e he t t' begun current hturn => ?_
  · refine ⟨loop.1, fun rid ⟨run, member, cancellable⟩ => loop.2 (rid, run) member cancellable⟩
  · obtain ⟨r, hr, ended⟩ := ends cancellable
    obtain ⟨r', hr', forth⟩ := k.forth _ r hr
    exact ⟨r', hr', forth ended⟩
  · have same := Store.cancellable_congr e.2.status begun.dependencies begun.isSome
      current.2
    obtain ⟨others, -, operations⟩ := cancelRun_frame hturn
    obtain ⟨r', hr', -, ended⟩ := cancelRun_status current.1 hturn
    refine ⟨cancelRun_cancels he current.1 same hturn, fun cancellable => ?_,
      fun e' _ hne row => ⟨(others e'.1 hne).trans row.1, ?_⟩⟩
    · exact ⟨r', hr', ended.mpr (.inr (same.trans cancellable))⟩
    · rw [← row.2]
      exact Store.started_congr fun oid o owner => operations oid o (owner.trans_ne hne)

/-! ## Children end first -/

/-- The children of a run that has ended have ended. -/
def Store.ChildrenFirst (s : Store) : Prop :=
  ∀ rid r, s.runs.get? rid = some r → r.status.terminal = true → s.ChildrenEnded rid

theorem Write.run_ended (w : Write D now s s') {rid : RunId} {r r' : Run}
    (h : s.runs.get? rid = some r) (h' : s'.runs.get? rid = some r')
    (ended : r.status.terminal = true) : r'.status.terminal = true :=
  (w.runEffect h').terminal h ended ▸ ended

theorem Store.ChildrenFirst.write (D : Discipline) (hD : D.childrenFirst) (base : s.Base)
    (first : s.ChildrenFirst) (w : Write D now s s') : s'.ChildrenFirst := by
  intro rid r' h ended
  -- The children the run had before: they have ended, and stay.
  have before : s.ChildrenEnded rid → ∀ key d child, s.dependencies.get? key = some d →
      d.parentId = rid → s'.runs.get? d.childId = some child → child.status.terminal = true := by
    intro all key d child hd owner hchild
    obtain ⟨-, row, -, hrow, -⟩ := base.tree.rows hd
    exact w.run_ended hrow hchild (all key d row hd owner hrow)
  have all : s.ChildrenEnded rid := by
    rcases (w.runEffect h).ended ended with hr | ⟨-, children, -⟩
    · exact first rid r' hr ended
    · exact children hD
  intro key d child hd owner hchild
  rcases w.dependencies with same | ⟨key', new, -, parent, hinsert, -, -, -, hparent, running, -⟩
  · exact before all key d child (same ▸ hd) owner hchild
  rw [(Table.insert?_eq_some hinsert).2] at hd
  split at hd
  · -- A new child: its parent is running, so it has not ended.
    cases hd
    subst owner
    cases h.symm.trans hparent
    rw [running] at ended
    cases ended
  · exact before all key d child hd owner hchild

/-- `cancel` keeps the order when it ends a queued run only together with its children. -/
theorem Store.ChildrenFirst.cancel {owner : OwnerId} {root : RunId} {reason : String}
    (tree : s.Tree) (first : s.ChildrenFirst)
    (together : ∀ e ∈ s.descendants root, e.2.status = .queued → ∀ child ∈ s.children e.1,
      child.2.status.terminal = true ∨ s.cancellable child.1 child.2.status = true)
    (h : cancel s owner root reason now = .ok s') : s'.ChildrenFirst := by
  obtain ⟨cancels, all⟩ := cancel_status tree h
  intro rid r' hr' ended key d child' hd owner' hchild'
  subst owner'
  rw [cancels.dependencies] at hd
  obtain ⟨r, hr, why⟩ := cancels.back d.parentId r' hr'
  obtain ⟨child, hchild, -⟩ := cancels.back d.childId child' hchild'
  have stays : child.status.terminal = true → child'.status.terminal = true := by
    intro childEnded
    obtain ⟨c, hc, forth⟩ := cancels.forth d.childId child hchild
    cases hc.symm.trans hchild'
    exact forth childEnded
  rcases why ended with before | ⟨run, member, cancellable⟩
  · exact stays (first d.parentId r hr before key d child hd rfl hchild)
  obtain ⟨hparent, hrun⟩ := Store.mem_descendants.mp member
  cases hr.symm.trans hrun
  have hid : d.childId ∈ s.childIds d.parentId := Store.mem_childIds.mpr ⟨key, d, hd, rfl, rfl⟩
  have mem : (d.childId, child) ∈ s.children d.parentId := Store.mem_children.mpr ⟨hid, hchild⟩
  -- A run that waits for the user is ended at once only when it has no children.
  have queued : r.status = .queued := by
    simp only [Store.cancellable, Bool.or_eq_true, Bool.and_eq_true, decide_eq_true_eq] at cancellable
    refine cancellable.resolve_right fun waits => ?_
    rw [List.isEmpty_iff.mp waits.1.2] at mem
    cases mem
  rcases together _ member queued _ mem with childEnded | atOnce
  · exact stays childEnded
  · obtain ⟨c, hc, childEnded⟩ := all d.childId
      ⟨child, Store.mem_descendants.mpr ⟨tree.descendantIds_closed hparent hid, hchild⟩, atOnce⟩
    cases hc.symm.trans hchild'
    exact childEnded

/-! ## Runs of the system -/

/-- `settle` fails no run, and `cancel` ends no queued run, while a child of it goes on. -/
def EndsWithChildren (w : World) : Action → Prop
  | .settle _ ctx outcome => outcome.kind = .error ∨ outcome.kind = .cancelAck →
      w.store.Running ctx.runId → w.store.OpsResolved ctx.runId → w.store.ChildrenEnded ctx.runId
  | .cancel _ root _ => ∀ e ∈ w.store.descendants root, e.2.status = .queued →
      ∀ child ∈ w.store.children e.1,
        child.2.status.terminal = true ∨ w.store.cancellable child.1 child.2.status = true
  | _ => True

/-- The discipline under which children end first. -/
def Discipline.ordered : Discipline := { childrenFirst := True }

theorem EndsWithChildren.meets {w : World} {a : Action} (h : EndsWithChildren w a)
    (plain : ∀ owner root reason, a ≠ .cancel owner root reason) :
    Discipline.ordered.Meets host w.store w.now a where
  scope := .all ..
  cancel owner root reason same := absurd same (plain owner root reason)
  settle machine ctx outcome same running := by
    subst same
    refine ⟨False.elim, False.elim, fun _ waits final resolved => h ?_ running resolved, False.elim⟩
    revert waits final
    cases outcome.kind <;> simp
  reconcile _ _ _ _ _ := False.elim
  delegate _ _ _ _ _ _ := False.elim

/-- In every run that ends no run by a failure or from the queue while a child of it goes on, the
children of a run that has ended have ended. -/
theorem ended_children {w : World} (reach : ((system host).restrict EndsWithChildren).Reachable w)
    {rid : RunId} {r : Run} (h : w.store.runs.get? rid = some r)
    (ended : r.status.terminal = true) :
    ∀ child ∈ w.store.children rid, child.2.status.terminal = true := by
  have first : w.store.ChildrenFirst := by
    refine reach.invariant (I := fun w => w.store.ChildrenFirst) (fun w start => ?_)
      fun w a w' reach first step => ?_
    · rw [show w.store = .initial from start]
      exact fun _ _ h => by cases h
    have base := reachable_base reach.of_restrict
    by_cases cancels : ∃ owner root reason, a = .cancel owner root reason
    · obtain ⟨owner, root, reason, rfl⟩ := cancels
      rcases World.next_perform step.2 with ⟨_, same, -⟩ | ⟨-, store, hperform, rfl⟩
      · cases same
      · exact first.cancel base.tree step.1 hperform
    · have meets : Discipline.ordered.Meets host w.store w.now a :=
        EndsWithChildren.meets step.1 fun owner root reason same =>
          cancels ⟨owner, root, reason, same⟩
      have writes := (step_writes reach.of_restrict meets step.2).2
      exact (writes.invariant (I := fun t => t.Base ∧ t.ChildrenFirst)
        (fun _ _ h w => ⟨h.1.write w, h.2.write Discipline.ordered trivial h.1 w⟩)
        ⟨base, first⟩).2
  intro child hmem
  obtain ⟨hid, hrow⟩ := Store.mem_children.mp hmem
  obtain ⟨key, d, hd, owner, same⟩ := Store.mem_childIds.mp hid
  exact first rid r h ended key d child.2 hd owner (same ▸ hrow)

namespace Sample

/-- Run `10` delegates a goal to run `11`. -/
def delegated : List Action := submitted ++
  [.claim ⟨1, 1⟩ 20, .delegate (context 20 1) ⟨10, 1, 1⟩ ⟨"args", "goal", "criteria", none⟩ []
    { run := 11, branch := 2, thread := 6, snapshot := 2 }]

/-- Run `11` completes, and then run `10`. -/
def completed : List Action :=
  let child : ExecutionContext :=
    { context 21 1 with
      branchId := 2, runId := 11, parentRunId := some 10, graphThreadKey := 6, inputRevision := 1
      configSnapshotId := 2 }
  [.claim ⟨1, 1⟩ 21, .settle machine child { final with runId := 11, inputRevision := 1 },
    .settle machine (context 20 1) final]

end Sample

/-- A run completes after the run it delegated to. -/
theorem ended_children_completed : ∃ (w : World) (r : Run), w.store.runs.get? 10 = some r ∧ r.status = .completed ∧
    w.store.childIds 10 = [11] ∧
    ∀ child ∈ w.store.children 10, child.2.status.terminal = true := by
  have run : (System.runs (World.next Sample.host) Sample.start
      (Sample.delegated ++ Sample.completed)).any (fun w =>
        ((w.store.runs.get? 10).any fun r => decide (r.status = .completed)) &&
        decide (w.store.childIds 10 = [11])) = true := by decide
  simp only [Option.any_eq_true, Bool.and_eq_true, decide_eq_true_eq] at run
  obtain ⟨w, hw, ⟨r, hr, status⟩, children⟩ := run
  refine ⟨w, r, hr, status, children, ended_children (Sample.reachableWithin (fun a ha w => ?_) hw)
    hr (by rw [status]; rfl)⟩
  simp only [Sample.delegated, Sample.completed, Sample.submitted, List.cons_append,
    List.nil_append, List.mem_cons, List.not_mem_nil, or_false] at ha
  rcases ha with rfl | rfl | rfl | rfl | rfl | rfl | rfl <;> first | trivial | (rintro (h | h) <;> cases h)

/-- A run fails while the run it delegated to is queued. -/
theorem ended_before_children : ¬∀ host w, (system host).Reachable w → ∀ rid r,
    w.store.runs.get? rid = some r → r.status.terminal = true →
    ∀ child ∈ w.store.children rid, child.2.status.terminal = true := by
  intro first
  have run : (System.runs (World.next Sample.host) Sample.start (Sample.delegated ++
      [.settle Sample.machine (Sample.context 20 1)
        { kind := .error, runId := 10, inputRevision := 2 }])).any (fun w =>
        ((w.store.runs.get? 10).any fun r => r.status.terminal) &&
        (w.store.children 10).any fun child => !child.2.status.terminal) = true := by decide
  simp only [Option.any_eq_true, Bool.and_eq_true, List.any_eq_true, Bool.not_eq_true'] at run
  obtain ⟨w, hw, ⟨r, hr, ended⟩, child, hchild, live⟩ := run
  rw [first _ w (Sample.reachable hw) 10 r hr ended child hchild] at live
  cases live

end MiHarness

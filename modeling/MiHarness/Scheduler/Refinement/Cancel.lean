import MiHarness.Scheduler.Refinement.Barrier

/-!
# Cancellation refines the row protocol

`Store.Tree` is what delegation keeps of the dependencies: no run has two parents and a child
is one level deeper than its parent.  With it the walk of `cancel` meets every run of the tree
once.
-/

namespace MiHarness

open Library

variable {D : Discipline} {now : Time} {s s' : Store}

/-- The dependencies form a forest over the rows of the runs. -/
structure Store.Tree (s : Store) : Prop where
  single : ∀ {k d k' d'}, s.dependencies.get? k = some d → s.dependencies.get? k' = some d' →
    d.childId = d'.childId → k = k'
  rows : ∀ {k d}, s.dependencies.get? k = some d → ∃ parent child,
    s.runs.get? d.parentId = some parent ∧ s.runs.get? d.childId = some child ∧
      child.depth = parent.depth + 1

/-! ## The walk -/

/-- The depth of a run. -/
def Store.depth (s : Store) (rid : RunId) : Nat := ((s.runs.get? rid).map Run.depth).getD 0

theorem Store.Tree.forest (tree : s.Tree) : Forest s.childIds s.depth where
  nodup parent := by
    rw [childIds, List.nodup_map_iff_inj_on ((Table.nodup_select _ _).of_map)]
    rintro ⟨k, d⟩ hd ⟨k', d'⟩ hd' hchild
    have key := tree.single (Table.mem_select.mp hd).1 (Table.mem_select.mp hd').1 hchild
    subst key
    cases (Table.mem_select.mp hd).1.symm.trans (Table.mem_select.mp hd').1
    rfl
  single ha hb := by
    obtain ⟨k, d, hd, rfl, hc⟩ := mem_childIds.mp ha
    obtain ⟨k', d', hd', rfl, hc'⟩ := mem_childIds.mp hb
    cases tree.single hd hd' (hc.trans hc'.symm)
    cases hd.symm.trans hd'
    rfl
  climbs h := by
    obtain ⟨k, d, hd, rfl, rfl⟩ := mem_childIds.mp h
    obtain ⟨parent, child, hparent, hchild, deeper⟩ := tree.rows hd
    simp [depth, hparent, hchild, deeper]

theorem Store.childIds_mem {parent child : RunId} (h : child ∈ s.childIds parent) :
    child ∈ s.dependencies.rows.map fun e => e.2.childId := by
  obtain ⟨k, d, hd, -, rfl⟩ := mem_childIds.mp h
  exact List.mem_map.mpr ⟨(k, d), Table.mem_rows.mpr hd, rfl⟩

theorem Store.Tree.descendantIds_nodup (tree : s.Tree) (rid : RunId) :
    (s.descendantIds rid).Nodup :=
  worklist_nodup tree.forest childIds_mem (by simp)

/-- The walk of `cancel` meets the children of every run it meets. -/
theorem Store.Tree.descendantIds_closed (tree : s.Tree) {rid parent child : RunId}
    (hparent : parent ∈ s.descendantIds rid) (hchild : child ∈ s.childIds parent) :
    child ∈ s.descendantIds rid :=
  worklist_closed tree.forest childIds_mem (by simp) parent hparent child hchild

theorem Store.mem_descendants {root rid : RunId} {run : Run} :
    (rid, run) ∈ s.descendants root ↔
      rid ∈ s.descendantIds root ∧ s.runs.get? rid = some run := by
  rw [descendants, List.mem_filterMap]
  constructor
  · rintro ⟨id, hid, hrow⟩
    obtain ⟨r, hr, heq⟩ := Option.map_eq_some_iff.mp hrow
    cases heq
    exact ⟨hid, hr⟩
  · rintro ⟨hid, hrow⟩
    exact ⟨rid, hid, by rw [hrow]; rfl⟩

theorem Store.Tree.descendants_nodup (tree : s.Tree) (root : RunId) :
    ((s.descendants root).map Prod.fst).Nodup := by
  have sub : ∀ l : List RunId,
      ((l.filterMap fun id => (s.runs.get? id).map fun r => (id, r)).map Prod.fst).Sublist l := by
    intro l
    induction l with
    | nil => exact .slnil
    | cons id l ih =>
        cases hrow : s.runs.get? id with
        | none => simpa [hrow] using ih.cons id
        | some r => simpa [hrow] using ih.cons_cons id
  exact (tree.descendantIds_nodup root).sublist (sub _)

/-! ## Cancelling one run -/

theorem Store.started_eq_false {rid : RunId} (h : s.started rid = false) : s.OpsResolved rid := by
  intro id o hget hrun
  have := Table.any_eq_false.mp h id o hget
  simp only [hrun, decide_true, Bool.true_and, decide_eq_false_iff_not] at this
  simp [Operation.unresolved, this]

/-- The store after the first writes of `cancelRun`. -/
theorem cancelRun_prefix (s : Store) (now : Time) (rid : RunId) (reason : String) (f : Run → Run) :
    ∃ events, (({ s with runs := s.runs.modify rid f }.revokeGrants rid []).cancelInteractions rid
        reason now) =
      { s with
        runs := s.runs.modify rid f, events
        grants := s.grants.mapRows fun id g => g.revoke rid [] id
        interactions := s.interactions.mapRows fun _ i => i.close rid reason } :=
  Store.cancelInteractions_eq _ rid reason now

theorem cancelRun_writes {reason : String} {rid : RunId} {run : Run}
    (current : s.runs.get? rid = some run)
    (resolved : D.resolved → run.status = .queued → s.OpsResolved rid) (plain : ¬D.childrenFirst)
    (answers : D.scope.answers rid)
    (h : cancelRun s reason rid run now = .ok s') : Writes D now s s' := by
  unfold cancelRun at h
  split at h
  · cases h
    exact .refl
  rename_i live
  rw [Bool.not_eq_true] at live
  obtain ⟨t, hflag, h⟩ := bind_eq_ok.mp h
  obtain ⟨-, -, rfl⟩ := Store.updateRun_eq_ok hflag
  obtain ⟨events, closed⟩ := cancelRun_prefix s now rid reason
    (RunPatch.apply { cancelRequested := some true })
  rw [closed] at h
  dsimp only at h
  let b : Store := { s with
    events
    grants := s.grants.mapRows fun id g => g.revoke rid [] id
    interactions := s.interactions.mapRows fun _ i => i.close rid reason }
  have before : Writes D now s b :=
    ((Write.grantsRevoked rid []).writes.then (.interactionsClosed rid reason answers)).then
      (.events events)
  refine before.trans ?_
  split at h
  · rename_i idle
    obtain ⟨row, u, hrow, -, -, hu, events', rfl⟩ := transition_eq_ok h
    rw [Table.get?_modify_self, current] at hrow
    cases hrow
    rw [if_pos (show RunStatus.cancelled.terminal = true from rfl)] at hu
    have runs : (s.runs.modify rid (RunPatch.apply { cancelRequested := some true })).modify rid
          (RunPatch.apply { status := some .cancelled }) =
        s.runs.modify rid fun r => r.ended .cancelled true run.resultRef run.error
          (run.revision + 2) := by
      rw [Table.modify_modify]
      refine Table.modify_congr fun r hr => ?_
      cases current.symm.trans hr
      rfl
    dsimp only at hu
    rw [runs] at hu
    simp only [Store.cancellable, Bool.or_eq_true, Bool.and_eq_true, decide_eq_true_eq,
      Bool.not_eq_true'] at idle
    refine (finishRun_writes (s := b) current live rfl (fun _ => rfl) hu rfl (fun d => ?_)
      (fun d => absurd d plain) fun busy => ?_).then (.events events')
    · exact idle.elim (resolved d) fun e => Store.started_eq_false e.2
    · rcases idle with e | ⟨⟨e, -⟩, -⟩ <;> rw [e] at busy <;> simp [recoverable] at busy
  rename_i busy
  have notQueued : run.status ≠ .queued := fun e => busy (by simp [Store.cancellable, e])
  split at h
  · obtain ⟨row, events', -, -, -, rfl⟩ := transition_moved h rfl
    dsimp only
    rw [Table.modify_modify]
    have moved : Write D now b { b with
        runs := s.runs.modify rid fun r => RunPatch.apply { status := some .cancelling }
          (RunPatch.apply { cancelRequested := some true } r) } :=
      .runMoved current (.cancelling (run.revision + 2) live notQueued)
    exact moved.writes.then (.events events')
  · rename_i already
    cases h
    have runs : s.runs.modify rid (RunPatch.apply { cancelRequested := some true }) =
        s.runs.modify rid fun r =>
          { r with status := .cancelling, cancelRequested := true, revision := r.revision + 1 } :=
      Table.modify_congr fun r hr => by
        cases current.symm.trans hr
        simp [RunPatch.apply, not_not.mp already]
    rw [runs]
    have moved : Write D now b { b with
        runs := s.runs.modify rid fun r =>
          { r with status := .cancelling, cancelRequested := true, revision := r.revision + 1 } } :=
      .runMoved current (.cancelling (run.revision + 1) live notQueued)
    exact moved.writes

/-- What cancelling one run leaves alone. -/
theorem cancelRun_frame {reason : String} {rid : RunId} {run : Run}
    (h : cancelRun s reason rid run now = .ok s') :
    (∀ rid', rid' ≠ rid → s'.runs.get? rid' = s.runs.get? rid') ∧
      s'.dependencies = s.dependencies ∧
      ∀ oid o', o'.runId ≠ rid →
        (s'.operations.get? oid = some o' ↔ s.operations.get? oid = some o') := by
  unfold cancelRun at h
  split at h
  · cases h
    exact ⟨fun _ _ => rfl, rfl, fun _ _ _ => Iff.rfl⟩
  obtain ⟨t, hflag, h⟩ := bind_eq_ok.mp h
  obtain ⟨-, -, rfl⟩ := Store.updateRun_eq_ok hflag
  obtain ⟨events, closed⟩ := cancelRun_prefix s now rid reason
    (RunPatch.apply { cancelRequested := some true })
  rw [closed] at h
  dsimp only at h
  have moved : ∀ {status : RunStatus} {ctx : Option ExecutionContext} {reason' : Option String}
      {extra : RunPatch}, transition { s with
        runs := s.runs.modify rid (RunPatch.apply { cancelRequested := some true }), events
        grants := s.grants.mapRows fun id g => g.revoke rid [] id
        interactions := s.interactions.mapRows fun _ i => i.close rid reason } rid status ctx reason'
        extra now = .ok s' →
      (∀ rid', rid' ≠ rid → s'.runs.get? rid' = s.runs.get? rid') ∧
        s'.dependencies = s.dependencies ∧
        ∀ oid o', o'.runId ≠ rid →
          (s'.operations.get? oid = some o' ↔ s.operations.get? oid = some o') := by
    intro status ctx reason' extra hmove
    obtain ⟨hdependencies, -, hoperations⟩ := transition_frame hmove
    refine ⟨fun rid' hne => ?_, hdependencies, fun oid o' hne => ?_⟩
    · rw [transition_runs hmove, Table.get?_modify_ne _ _ hne, Table.get?_modify_ne _ _ hne]
    · rcases hoperations with e | ⟨-, e⟩
      · rw [e]
      rw [e, Table.get?_mapRows]
      constructor
      · intro ho
        obtain ⟨o, hget, rfl⟩ := Option.map_eq_some_iff.mp ho
        have other : ¬(o.runId = rid ∧ o.state.unstarted = true) := fun hclose => by
          rw [Operation.close, if_pos hclose] at hne
          exact hne hclose.1
        rw [Operation.close, if_neg other]
        exact hget
      · intro ho
        rw [ho, Option.map_some, Operation.close, if_neg fun hclose => hne hclose.1]
  split at h
  · exact moved h
  split at h
  · exact moved h
  · cases h
    exact ⟨fun rid' hne => Table.get?_modify_ne _ _ hne, rfl, fun _ _ _ => Iff.rfl⟩

/-- The rows that `cancel` has not reached are as they were. -/
theorem cancel_writes {owner : OwnerId} {root : RunId} {reason : String} (tree : s.Tree)
    (resolved : D.resolved → ∀ e ∈ s.descendants root, e.2.status = .queued → s.OpsResolved e.1)
    (plain : ¬D.childrenFirst) (answers : ∀ rid, D.scope.answers rid) (h : cancel s owner root reason now = .ok s') :
    Writes D now s s' := by
  obtain ⟨_, -, h⟩ := bind_eq_ok.mp h
  refine foldlM_keyed (P := fun t rid run => t.runs.get? rid = some run ∧
      (D.resolved → run.status = .queued → t.OpsResolved rid))
    (fun _ => .refl) (fun _ _ _ => .trans) (tree.descendants_nodup root) h ?_ ?_
  · exact fun e he => ⟨(Store.mem_descendants.mp he).2, fun d => resolved d e he⟩
  · intro e _ t t' _ current hturn
    refine ⟨cancelRun_writes current.1 current.2 plain (answers _) hturn, fun e' _ hne hP => ?_⟩
    obtain ⟨runs, -, operations⟩ := cancelRun_frame hturn
    refine ⟨(runs e'.1 hne).trans hP.1, fun d queued oid o' ho' owner => ?_⟩
    exact hP.2 d queued oid o' ((operations oid o' (owner.trans_ne hne)).mp ho') owner

theorem finishIdleRun_writes {rid : RunId} {run : Run} (current : s.runs.get? rid = some run)
    (h : finishIdleRun s rid run now = .ok s') :
    Writes D now s s' ∧ ∀ rid', rid' ≠ rid → s'.runs.get? rid' = s.runs.get? rid' := by
  unfold finishIdleRun at h
  split at h
  · cases h
    exact ⟨.refl, fun _ _ => rfl⟩
  rename_i idle
  split at h
  · rename_i ends
    refine ⟨transition_finished h rfl (fun _ => Store.unresolved_eq_false ends.1)
      (fun _ => Store.childrenTerminal_eq_true.mp ends.2) fun row hrow _ => .inr ?_, ?_⟩
    · cases current.symm.trans hrow
      intro aid attempt named hattempt running
      exact idle (by simp [named, hattempt, running])
    · intro rid' hne
      rw [transition_runs h, Table.get?_modify_ne _ _ hne]
  · cases h
    exact ⟨.refl, fun _ _ => rfl⟩

theorem finishIdle_writes (h : finishIdle s now = .ok s') : Writes D now s s' := by
  have distinct : (((s.runsWith [.cancelling]).reverse).map Prod.fst).Nodup := by
    rw [List.map_reverse, List.nodup_reverse]
    exact Store.nodup_runsWith _
  refine foldlM_keyed (P := fun t rid run => t.runs.get? rid = some run)
    (fun _ => .refl) (fun _ _ _ => .trans) distinct h ?_ ?_
  · exact fun e he => (Store.mem_runsWith.mp (List.mem_reverse.mp he)).1
  · intro e _ t t' _ current hturn
    obtain ⟨writes, others⟩ := finishIdleRun_writes current hturn
    exact ⟨writes, fun e' _ hne hP => (others e'.1 hne).trans hP⟩

end MiHarness

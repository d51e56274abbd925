import MiHarness.Context.Memory

/-!
# What retrieval returns

`memory_isolation` is about one run and about two.  In every run, `retrieve` returns records of the
caller that are in scope, not expired, accepted by the caller and not deleted.  Two repositories that
agree on these records give the same list, whatever else they hold.

`MemoryAction.Writes` is what a call does that does not raise; `MemoryTold` ties the state of a record
to the calls of the past.  `readPages_eq` says that the pages give all candidates, so that the limit
cuts after the filters, and `listedMemory_congr` that their order comes from the records alone.
-/

namespace MiHarness

open Library

/-! ## What the calls write -/

/-- `w'` is `w` with `r` under its id. -/
def Holding (w w' : MemoryStore) (r : MemoryRecord) : Prop :=
  ∀ k, w'.get k = if k = r.id then some r else w.get k

/-- What a call that does not raise writes. -/
inductive MemoryAction.Writes (w w' : MemoryStore) : MemoryAction → Prop where
  | proposed {identity : Identity} {access : AccessCheck} {workspace : WorkspaceId}
      {content : List Char} {sourceRefs : Json} {fields : ProposalFields} {fresh : MemoryId}
      {now : Time} (r : MemoryRecord) (holds : Holding w w' r) (id : r.id = fresh)
      (state : r.reviewState = .proposed) :
      Writes w w' (.propose identity access workspace content sourceRefs fields fresh now)
  | reviewed {identity : Identity} {access : AccessCheck} {id : MemoryId} {decision : String}
      {expected : Nat} (old : MemoryRecord) (patch : MemoryPatch) (found : w.get id = some old)
      (own : identity.owner = old.owner) (live : old.reviewState ≠ .deleted)
      (holds : Holding w w' (patch.apply old))
      (state : patch.reviewState = some .accepted ∧ decision ∈ ["accepted", "accept"] ∨
        patch.reviewState = some .rejected) :
      Writes w w' (.review identity access id decision expected)
  | updated {identity : Identity} {access : AccessCheck} {id : MemoryId} {patch : MemoryPatch}
      {expected : Nat} (old : MemoryRecord) (found : w.get id = some old)
      (own : identity.owner = old.owner) (live : old.reviewState ≠ .deleted)
      (holds : Holding w w' (patch.apply old)) (state : patch.reviewState = none) :
      Writes w w' (.update identity access id patch expected)
  | deleted {identity : Identity} {access : AccessCheck} {id : MemoryId} {expected : Nat}
      (old : MemoryRecord) (patch : MemoryPatch) (found : w.get id = some old)
      (own : identity.owner = old.owner) (live : old.reviewState ≠ .deleted)
      (holds : Holding w w' (patch.apply old)) (state : patch.reviewState = some .deleted) :
      Writes w w' (.delete identity access id expected)

theorem getMemory_eq_ok {w : MemoryStore} {identity : Identity} {access : AccessCheck}
    {id : MemoryId} {r : MemoryRecord} (h : getMemory w identity access id = .ok r) :
    w.get id = some r ∧ identity.owner = r.owner ∧ r.reviewState ≠ .deleted := by
  obtain ⟨r', found, h⟩ := bind_eq_ok.mp h
  obtain ⟨_, checked, h⟩ := bind_eq_ok.mp h
  obtain ⟨_, live, h⟩ := bind_eq_ok.mp h
  obtain ⟨_, own, _⟩ := bind_eq_ok.mp checked
  cases pure_eq_ok.mp h
  exact ⟨orThrow_eq_ok.mp found, require_eq_ok.mp own, require_eq_ok.mp live⟩

theorem replaceMemory_eq_ok {w w' : MemoryStore} {old : MemoryRecord} {patch : MemoryPatch}
    {expected : Nat} (h : replaceMemory w old patch expected = .ok w') :
    Holding w w' (patch.apply old) := by
  obtain ⟨_, _, h⟩ := bind_eq_ok.mp h
  obtain ⟨_, _, h⟩ := bind_eq_ok.mp h
  exact (Versioned.wrote_of_compareAndSet (mapError_eq_ok.mp h)).get_eq

theorem MemoryAction.writes {w w' : MemoryStore} {a : MemoryAction} (h : a.perform w = .ok w') :
    a.Writes w w' := by
  cases a with
  | propose identity access workspace content sourceRefs fields fresh now =>
      obtain ⟨_, _, h⟩ := bind_eq_ok.mp h
      obtain ⟨_, _, h⟩ := bind_eq_ok.mp h
      obtain ⟨_, _, h⟩ := bind_eq_ok.mp h
      have written := Versioned.put_get (mapError_eq_ok.mp h)
      exact .proposed {
        id := fresh, owner := identity.owner, workspace, content, sourceRefs, createdAt := now
        scope := fields.scope, kind := fields.kind, confidence := fields.confidence
        expiresAt := fields.expiresAt.join } written rfl rfl
  | review identity access id decision expected =>
      obtain ⟨_, known, h⟩ := bind_eq_ok.mp h
      obtain ⟨old, found, h⟩ := bind_eq_ok.mp h
      obtain ⟨_, _, h⟩ := bind_eq_ok.mp h
      obtain ⟨found, own, live⟩ := getMemory_eq_ok found
      refine .reviewed old _ found own live (replaceMemory_eq_ok h) ?_
      split
      · exact .inl ⟨rfl, ‹_›⟩
      · exact .inr rfl
  | update identity access id patch expected =>
      obtain ⟨_, allowed, h⟩ := bind_eq_ok.mp h
      obtain ⟨old, found, h⟩ := bind_eq_ok.mp h
      obtain ⟨found, own, live⟩ := getMemory_eq_ok found
      exact .updated old found own live (replaceMemory_eq_ok h) (require_eq_ok.mp allowed).2
  | delete identity access id expected =>
      obtain ⟨old, found, h⟩ := bind_eq_ok.mp h
      obtain ⟨found, own, live⟩ := getMemory_eq_ok found
      exact .deleted old _ found own live (replaceMemory_eq_ok h) rfl

/-! ## The past of a record -/

/-- A review of `owner` that accepted the record. -/
def Accepts (owner : OwnerId) (id : MemoryId) (e : MemoryStore × MemoryAction) : Prop :=
  ∃ identity access decision expected w',
    e.2 = .review identity access id decision expected ∧ identity.owner = owner ∧
      decision ∈ ["accepted", "accept"] ∧ e.2.perform e.1 = .ok w'

/-- A deletion of the record that did not raise. -/
def Deletes (id : MemoryId) (e : MemoryStore × MemoryAction) : Prop :=
  ∃ identity access expected w', e.2 = .delete identity access id expected ∧
    e.2.perform e.1 = .ok w'

/-- Records stand under their ids, accepted ones have been accepted by their owner, and what was deleted
is so still. -/
structure MemoryTold (past : List (MemoryStore × MemoryAction)) (w : MemoryStore) : Prop where
  keyed : ∀ k r, w.get k = some r → r.id = k
  accepted : ∀ k r, w.get k = some r → r.reviewState = .accepted → ∃ e ∈ past, Accepts r.owner k e
  deleted : ∀ e ∈ past, ∀ k, Deletes k e → ∃ r, w.get k = some r ∧ r.reviewState = .deleted

section Told

variable {past : List (MemoryStore × MemoryAction)} {w w' : MemoryStore} {a : MemoryAction}

/-- A write of a record that keeps its id and its owner and, when it was deleted, is no write. -/
theorem MemoryTold.hold (told : MemoryTold past w) {r : MemoryRecord} (holds : Holding w w' r)
    (old : ∀ r', w.get r.id = some r' → r'.reviewState ≠ .deleted)
    (accepts : r.reviewState = .accepted → ∃ e ∈ (w, a) :: past, Accepts r.owner r.id e)
    (deletes : ∀ k, Deletes k (w, a) → k = r.id ∧ r.reviewState = .deleted) :
    MemoryTold ((w, a) :: past) w' where
  keyed k r' h := by
    rw [holds] at h
    split at h
    · cases h
      exact Eq.symm ‹k = r.id›
    · exact told.keyed k r' h
  accepted k r' h state := by
    rw [holds] at h
    split at h
    · cases h
      subst k
      exact accepts state
    · obtain ⟨e, he, accepted⟩ := told.accepted k r' h state
      exact ⟨e, List.mem_cons_of_mem _ he, accepted⟩
  deleted e he k h := by
    rcases List.mem_cons.mp he with rfl | he
    · obtain ⟨rfl, state⟩ := deletes k h
      exact ⟨r, (holds _).trans (if_pos rfl), state⟩
    · obtain ⟨r', found, state⟩ := told.deleted e he k h
      have other : k ≠ r.id := by
        rintro rfl
        exact old r' found state
      exact ⟨r', (holds k).trans ((if_neg other).trans found), state⟩

/-- A change of a record that is not deleted. -/
theorem MemoryTold.replace (told : MemoryTold past w) {id : MemoryId} {old : MemoryRecord}
    {patch : MemoryPatch} (found : w.get id = some old) (live : old.reviewState ≠ .deleted)
    (holds : Holding w w' (patch.apply old))
    (accepts : (patch.apply old).reviewState = .accepted →
      ∃ e ∈ (w, a) :: past, Accepts old.owner id e)
    (deletes : ∀ k, Deletes k (w, a) → k = id ∧ (patch.apply old).reviewState = .deleted) :
    MemoryTold ((w, a) :: past) w' := by
  have key : (patch.apply old).id = id := told.keyed id old found
  refine told.hold holds ?_ (key ▸ accepts) (key ▸ deletes)
  intro r' found'
  rw [key, found] at found'
  cases found'
  exact live

/-- The state after a change: that of the patch, or the old one. -/
theorem MemoryPatch.apply_state (patch : MemoryPatch) (old : MemoryRecord) :
    (patch.apply old).reviewState = patch.reviewState.getD old.reviewState := rfl

theorem MemoryTold.step (told : MemoryTold past w) (fresh : a.Fresh w) :
    MemoryTold ((w, a) :: past) (a.next w) := by
  unfold MemoryAction.next
  cases h : a.perform w with
  | error e =>
      have quiet : ∀ k, ¬Deletes k (w, a) := by
        rintro k ⟨_, _, _, _, _, ok⟩
        cases h.symm.trans ok
      exact {
        keyed := told.keyed
        accepted := fun k r found state => by
          obtain ⟨e, he, accepted⟩ := told.accepted k r found state
          exact ⟨e, List.mem_cons_of_mem _ he, accepted⟩
        deleted := fun e he k deletes => by
          rcases List.mem_cons.mp he with rfl | he
          · exact absurd deletes (quiet k)
          · exact told.deleted e he k deletes }
  | ok w' =>
      show MemoryTold ((w, a) :: past) w'
      cases MemoryAction.writes h with
      | proposed r holds id state =>
          refine told.hold holds ?_ ?_ ?_
          · intro r' found
            rw [id, show w.get _ = none from fresh] at found
            cases found
          · intro accepted
            rw [state] at accepted
            cases accepted
          · rintro k ⟨_, _, _, _, same, _⟩
            cases same
      | @reviewed identity access id decision expected old patch found own live holds state =>
          refine told.replace found live holds ?_ ?_
          · intro accepted
            rw [MemoryPatch.apply_state] at accepted
            rcases state with ⟨_, accepts⟩ | rejects
            · exact ⟨_, List.mem_cons_self .., identity, access, decision, expected, w', rfl, own,
                accepts, h⟩
            · rw [rejects] at accepted
              cases accepted
          · rintro k ⟨_, _, _, _, same, _⟩
            cases same
      | @updated identity access id patch expected old found own live holds state =>
          refine told.replace found live holds ?_ ?_
          · intro accepted
            rw [MemoryPatch.apply_state, state] at accepted
            obtain ⟨e, he, before⟩ := told.accepted id old found accepted
            exact ⟨e, List.mem_cons_of_mem _ he, before⟩
          · rintro k ⟨_, _, _, _, same, _⟩
            cases same
      | @deleted identity access id expected old patch found own live holds state =>
          have now : (patch.apply old).reviewState = .deleted := by
            rw [MemoryPatch.apply_state, state]
            rfl
          refine told.replace found live holds ?_ ?_
          · intro accepted
            rw [now] at accepted
            cases accepted
          · rintro k ⟨_, _, _, _, same, _⟩
            cases same
            exact ⟨rfl, now⟩

theorem memory_told (h : memorySystem.History past w) : MemoryTold past w := by
  refine System.History.invariant ?_ ?_ h
  · rintro _ rfl
    exact {
      keyed := fun _ _ found => (nomatch found)
      accepted := fun _ _ found => (nomatch found)
      deleted := fun _ he => absurd he List.not_mem_nil }
  · rintro past w a _ _ told ⟨fresh, rfl⟩
    exact told.step fresh

end Told

/-! ## The candidates -/

section Pages

variable {w : MemoryStore} {identity : Identity} {access : AccessCheck} {workspace : WorkspaceId}
  {keep : MemoryRecord → Bool}

theorem listMemory_eq (allowed : access workspace = none) {cursor : Option Int} {k : ℕ}
    (at_ : cursor.getD 0 = k) :
    listMemory w identity access workspace keep cursor 100 = .ok {
      items := ((listedMemory w identity.owner workspace keep).drop k).take 100
      nextCursor := if k + 100 < (listedMemory w identity.owner workspace keep).length
        then some ((k + 100 : ℕ) : Int) else none } := by
  have checked : checkAccess access workspace = .ok () := by
    rw [checkAccess, allowed]
  have valid : 0 ≤ cursor.getD 0 ∧ (1 : Int) ≤ 100 ∧ (100 : Int) ≤ 100 := by
    rw [at_]
    omega
  rw [listMemory, checked, ok_bind]
  dsimp only
  rw [require_pos _ valid, ok_bind, at_]
  norm_cast

/-- The pages from `k` on are the records from `k` on. -/
theorem readPages_eq (allowed : access workspace = none) :
    ∀ (fuel : ℕ) (cursor : Option Int) (k : ℕ), cursor.getD 0 = k →
      (listedMemory w identity.owner workspace keep).length < k + fuel →
      readPages (fun cursor => listMemory w identity access workspace keep cursor 100) fuel cursor =
        .ok ((listedMemory w identity.owner workspace keep).drop k)
  | 0, _, k, _, enough => by
      rw [List.drop_eq_nil_of_le (by omega)]
      rfl
  | fuel + 1, cursor, k, at_, enough => by
      rw [readPages, listMemory_eq allowed at_, ok_bind]
      by_cases more : k + 100 < (listedMemory w identity.owner workspace keep).length
      · have later := readPages_eq allowed fuel (some ((k + 100 : ℕ) : Int)) (k + 100) rfl (by omega)
        simp only [if_pos more, later, ok_bind]
        rw [← List.drop_drop, List.take_append_drop]
      · simp only [if_neg more]
        rw [List.take_of_length_le]
        rw [List.length_drop]
        omega

section Retrieve

variable (text : TextRules) (query : List Char) (limit : Int) (now : Time)

theorem retrieveMemory_denied {error : HarnessError} (denied : access workspace = some error) :
    retrieveMemory text w identity access workspace query limit now = .error (.harness error) := by
  have checked : checkAccess access workspace = .error (.harness error) := by
    rw [checkAccess, denied]
  rw [retrieveMemory]
  rw [readPages, listMemory, checked]
  rfl

/-- All candidates are ranked. -/
theorem retrieveMemory_allowed (allowed : access workspace = none) :
    retrieveMemory text w identity access workspace query limit now =
      .ok (rankMemory text query limit now
        (listedMemory w identity.owner workspace fun r => r.reviewState = .accepted)) := by
  have enough : (listedMemory w identity.owner workspace fun r => r.reviewState = .accepted).length
      < 0 + (w.list.length + 1) := by
    rw [listedMemory, List.length_insertionSort]
    have kept := List.length_filter_le (fun r => decide (r.reviewState = .accepted))
      (w.list.filter (MemoryRecord.Visible identity.owner workspace))
    have seen := List.length_filter_le
      (fun r => decide (MemoryRecord.Visible identity.owner workspace r)) w.list
    omega
  rw [retrieveMemory]
  rw [readPages_eq allowed _ none 0 rfl enough]
  rfl

end Retrieve

end Pages

/-! ## The order of the candidates -/

instance : IsTrans MemoryRecord MemoryRecord.Before where
  trans a b c hab hbc := by
    unfold MemoryRecord.Before at *
    grind

instance : Std.Total MemoryRecord.Before where
  total a b := by
    unfold MemoryRecord.Before
    rcases Nat.lt_trichotomy a.createdAt b.createdAt with h | h | h
    · exact .inl (.inl h)
    · rcases Nat.le_total a.id b.id with hid | hid
      · exact .inl (.inr ⟨h, hid⟩)
      · exact .inr (.inr ⟨h.symm, hid⟩)
    · exact .inr (.inl h)

theorem MemoryRecord.Before.id_eq {a b : MemoryRecord} (hab : a.Before b) (hba : b.Before a) :
    a.id = b.id := by
  unfold MemoryRecord.Before at *
  grind

/-- A record that a retrieval for the owner and the workspace may return. -/
structure MemoryRecord.Eligible (owner : OwnerId) (workspace : WorkspaceId) (now : Time)
    (r : MemoryRecord) : Prop where
  own : r.owner = owner
  inScope : r.scope = .user ∨ r.workspace = workspace
  accepted : r.reviewState = .accepted
  unexpired : ¬r.Expired now

/-- The candidates that are not expired. -/
def candidates (w : MemoryStore) (owner : OwnerId) (workspace : WorkspaceId) (now : Time) :
    List MemoryRecord :=
  (listedMemory w owner workspace fun r => r.reviewState = .accepted).filter fun r => ¬r.Expired now

section Candidates

variable {w : MemoryStore} {owner : OwnerId} {workspace : WorkspaceId} {now : Time}

theorem mem_candidates {r : MemoryRecord} :
    r ∈ candidates w owner workspace now ↔
      (∃ k, w.get k = some r) ∧ r.Eligible owner workspace now := by
  have scope : (r.scope = .workspace → r.workspace = workspace) ↔
      (r.scope = .user ∨ r.workspace = workspace) := by
    cases r.scope with
    | user => simp
    | workspace => simp
  simp only [candidates, listedMemory, List.mem_filter, List.mem_insertionSort, Versioned.mem_list,
    MemoryRecord.Visible, decide_eq_true_eq, scope]
  constructor
  · rintro ⟨⟨⟨stored, own, _, inScope⟩, accepted⟩, unexpired⟩
    exact ⟨stored, own, inScope, accepted, unexpired⟩
  · rintro ⟨stored, own, inScope, accepted, unexpired⟩
    exact ⟨⟨⟨stored, own, by simp [accepted], inScope⟩, accepted⟩, unexpired⟩

theorem candidates_pairwise : (candidates w owner workspace now).Pairwise MemoryRecord.Before :=
  (List.pairwise_insertionSort ..).filter _

theorem nodup_list (keyed : ∀ k r, w.get k = some r → r.id = k) : w.list.Nodup := by
  refine List.Nodup.of_map MemoryRecord.id ?_
  have ids : w.list.map MemoryRecord.id =
      (w.records.rows.insertionSort fun a b => a.1 ≤ b.1).map Prod.fst := by
    rw [Versioned.list, List.map_map]
    refine List.map_congr_left fun e he => ?_
    have row := Table.mem_rows.mp ((List.mem_insertionSort _).mp he)
    exact keyed e.1 e.2.payload (by rw [Versioned.get, Records.get, row]; rfl)
  rw [ids]
  exact ((List.perm_insertionSort ..).map Prod.fst).nodup_iff.mpr w.records.nodup

theorem nodup_candidates (keyed : ∀ k r, w.get k = some r → r.id = k) :
    (candidates w owner workspace now).Nodup := by
  refine List.Nodup.filter _ ?_
  refine (List.perm_insertionSort ..).nodup_iff.mpr ?_
  exact ((nodup_list keyed).filter _).filter _

/-- Two stores with the same eligible records have the same candidates. -/
theorem candidates_congr {w' : MemoryStore} (keyed : ∀ k r, w.get k = some r → r.id = k)
    (keyed' : ∀ k r, w'.get k = some r → r.id = k)
    (same : ∀ k r, r.Eligible owner workspace now → (w.get k = some r ↔ w'.get k = some r)) :
    candidates w owner workspace now = candidates w' owner workspace now := by
  refine List.Perm.eq_of_pairwise (fun a b ha hb hab hba => ?_) candidates_pairwise
    candidates_pairwise ?_
  · obtain ⟨⟨k, found⟩, eligible⟩ := mem_candidates.mp ha
    obtain ⟨⟨k', found'⟩, _⟩ := mem_candidates.mp hb
    have key : k = k' := by
      rw [← keyed k a found, ← keyed' k' b found', hab.id_eq hba]
    subst key
    rw [same k a eligible, found'] at found
    exact (Option.some.inj found).symm
  · refine (List.perm_ext_iff_of_nodup (nodup_candidates keyed) (nodup_candidates keyed')).mpr ?_
    intro r
    rw [mem_candidates, mem_candidates]
    refine and_congr_left fun eligible => ?_
    exact exists_congr fun k => same k r eligible

end Candidates

/-! ## Isolation -/

/-- Ranking drops what is expired before it looks at anything else. -/
theorem rankMemory_unexpired (text : TextRules) (query : List Char) (limit : Int) (now : Time)
    (records : List MemoryRecord) :
    rankMemory text query limit now (records.filter fun r => ¬r.Expired now) =
      rankMemory text query limit now records := by
  rw [rankMemory, rankMemory, List.filter_filter]
  simp only [Bool.and_self]

theorem mem_rankMemory {text : TextRules} {query : List Char} {limit : Int} {now : Time}
    {records : List MemoryRecord} {r : MemoryRecord}
    (h : r ∈ rankMemory text query limit now records) : r ∈ records := by
  obtain ⟨e, he, rfl⟩ := List.mem_map.mp (List.mem_of_mem_take h)
  have scored := (List.mem_insertionSort _).mp (List.mem_filter.mp he).1
  obtain ⟨r, hr, rfl⟩ := List.mem_map.mp scored
  exact (List.mem_filter.mp hr).1

/-- What a retrieval that may be made returns. -/
theorem retrieveMemory_candidates {w : MemoryStore} {identity : Identity} {access : AccessCheck}
    {workspace : WorkspaceId} (text : TextRules) (query : List Char) (limit : Int) (now : Time)
    (allowed : access workspace = none) :
    retrieveMemory text w identity access workspace query limit now =
      .ok (rankMemory text query limit now (candidates w identity.owner workspace now)) := by
  rw [retrieveMemory_allowed text query limit now allowed, candidates, rankMemory_unexpired]

theorem MemoryTold.of_reachable {w : MemoryStore} (h : memorySystem.Reachable w) :
    ∃ past, MemoryTold past w := by
  obtain ⟨past, run⟩ := h.history
  exact ⟨past, memory_told run⟩

/-- In every run a retrieval returns records of the caller that are stored, in scope, not expired,
accepted by the caller and never deleted.  Two stores with the same such records give the same list. -/
theorem memory_isolation (text : TextRules) (identity : Identity) (access : AccessCheck)
    (workspace : WorkspaceId) (query : List Char) (limit : Int) (now : Time) :
    (∀ past w records, memorySystem.History past w →
      retrieveMemory text w identity access workspace query limit now = .ok records →
      ∀ r ∈ records, w.get r.id = some r ∧ r.Eligible identity.owner workspace now ∧
        (∃ e ∈ past, Accepts identity.owner r.id e) ∧ ∀ e ∈ past, ¬Deletes r.id e) ∧
    ∀ w w', memorySystem.Reachable w → memorySystem.Reachable w' →
      (∀ k r, r.Eligible identity.owner workspace now → (w.get k = some r ↔ w'.get k = some r)) →
      retrieveMemory text w identity access workspace query limit now =
        retrieveMemory text w' identity access workspace query limit now := by
  constructor
  · intro past w records run h r hr
    have told := memory_told run
    cases access_ : access workspace with
    | some error =>
        rw [retrieveMemory_denied text query limit now access_] at h
        cases h
    | none =>
        rw [retrieveMemory_candidates text query limit now access_] at h
        cases h
        obtain ⟨⟨k, found⟩, eligible⟩ := mem_candidates.mp (mem_rankMemory hr)
        obtain rfl := told.keyed k r found
        refine ⟨found, eligible, ?_, ?_⟩
        · obtain ⟨e, he, accepted⟩ := told.accepted r.id r found eligible.accepted
          exact ⟨e, he, eligible.own ▸ accepted⟩
        · intro e he deletes
          obtain ⟨r', found', gone⟩ := told.deleted e he r.id deletes
          cases found.symm.trans found'
          cases eligible.accepted.symm.trans gone
  · intro w w' reached reached' same
    obtain ⟨_, told⟩ := MemoryTold.of_reachable reached
    obtain ⟨_, told'⟩ := MemoryTold.of_reachable reached'
    cases access_ : access workspace with
    | some error =>
        rw [retrieveMemory_denied text query limit now access_,
          retrieveMemory_denied text query limit now access_]
    | none =>
        rw [retrieveMemory_candidates text query limit now access_,
          retrieveMemory_candidates text query limit now access_,
          candidates_congr told.keyed told'.keyed same]

namespace Sample

/-- Texts of one word. -/
def oneWord : TextRules where
  words t := [t]
  lower := id

def openAccess : AccessCheck := fun _ => none

/-- Two owners propose the same text and accept it. -/
def remembering : List MemoryAction := [
  .propose ⟨1, none⟩ openAccess 1 "tea".toList "[]" {} 10 0,
  .review ⟨1, none⟩ openAccess 10 "accept" 1,
  .propose ⟨2, none⟩ openAccess 1 "tea".toList "[]" { kind := .pinned } 20 0,
  .review ⟨2, none⟩ openAccess 20 "accept" 1]

/-- What the first owner has remembered. -/
def tea : MemoryRecord where
  id := 10
  revision := 2
  owner := 1
  workspace := 1
  content := "tea".toList
  createdAt := 0
  reviewState := .accepted

theorem remembering_run :
    ∃ past, memorySystem.History past (remembering.foldl MemoryAction.next {}) := by
  have proposed := (System.History.init (S := memorySystem) rfl).step
    (a := remembering[0]) ⟨rfl, rfl⟩
  have accepted := proposed.step (a := remembering[1]) ⟨trivial, rfl⟩
  have unused : ((remembering.take 2).foldl MemoryAction.next {}).get 20 = none := by decide
  have other := accepted.step (a := remembering[2]) ⟨unused, rfl⟩
  exact ⟨_, other.step (a := remembering[3]) ⟨trivial, rfl⟩⟩

end Sample

/-- The pinned record of the other owner is not among what the first gets. -/
theorem memory_isolation_owner : ∃ past w, memorySystem.History past w ∧
    retrieveMemory Sample.oneWord w ⟨1, none⟩ Sample.openAccess 1 "tea".toList 10 5 =
      .ok [Sample.tea] ∧ ∃ e ∈ past, Accepts 1 10 e := by
  obtain ⟨past, run⟩ := Sample.remembering_run
  have got : retrieveMemory Sample.oneWord (Sample.remembering.foldl MemoryAction.next {}) ⟨1, none⟩
      Sample.openAccess 1 "tea".toList 10 5 = .ok [Sample.tea] := by
    decide +kernel
  obtain ⟨_, _, accepted, _⟩ := (memory_isolation Sample.oneWord ⟨1, none⟩ Sample.openAccess 1
    "tea".toList 10 5).1 past _ _ run got Sample.tea (List.mem_singleton_self _)
  exact ⟨past, _, run, got, accepted⟩

end MiHarness

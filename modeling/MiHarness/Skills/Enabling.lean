import MiHarness.Skills.Pinning

/-!
# What the user has chosen

A record has one flag, `enabled`, for what the user has chosen and for what a refresh has found.  A refresh
that finds the files of a skill wrong, or not at all, clears the flag, and one that finds them right again
leaves it cleared.  So the flag is what the user has chosen as long as no refresh has marked the skill
since then (`enabledAs`).

`Settled` says this of every run; `skill_enablement` says exactly when a refresh leaves a skill as the user
has chosen.
-/

namespace MiHarness

open Library

variable {host : SkillHost} {w w' : SkillWorld} {past : List (SkillWorld × SkillAction)} {id : SkillId}

/-! ## The past -/

/-- The value of `enabled` that a call of `configure` which returns has chosen for a skill. -/
def SkillWorld.choice (w : SkillWorld) (id : SkillId) : SkillAction → Option Bool
  | .configure skillId expectedRevision enabled trustState =>
      match configure skillId expectedRevision enabled trustState w with
      | .ok _ _ => if skillId = id then enabled else none
      | .error _ _ => none
  | _ => none

/-- What the user has chosen at last; a skill is enabled before the first choice. -/
def lastChoice (id : SkillId) : List (SkillWorld × SkillAction) → Bool
  | [] => true
  | (w, action) :: past => (w.choice id action).getD (lastChoice id past)

/-- The record says that something is wrong with the files. -/
def SkillWorld.marked (w : SkillWorld) (id : SkillId) : Bool :=
  (w.skills.get id).any fun r => !r.validationDiagnostics.isEmpty

/-- The skill is marked, or has been since the last choice. -/
def markedSince (w : SkillWorld) (id : SkillId) : List (SkillWorld × SkillAction) → Bool
  | [] => w.marked id
  | (before, action) :: past =>
      w.marked id || ((before.choice id action).isNone && markedSince before id past)

/-- The value of the flag. -/
def enabledAs (past : List (SkillWorld × SkillAction)) (w : SkillWorld) (id : SkillId) : Bool :=
  lastChoice id past && !markedSince w id past

/-! ## The system -/

/-- The ids of new skills have not been used. -/
def SkillAction.Draws (w : SkillWorld) : SkillAction → Prop
  | .refresh _ _ fresh => ∀ i j, w.skills.get (fresh i j) = none
  | _ => True

/-- All calls, from the first start of the service on. -/
def SkillHost.enabling (host : SkillHost) : System SkillWorld SkillAction where
  init w := w.Start ∧ w.skills = .empty
  step w action w' := action.Draws w ∧ host.system.step w action w'

/-! ## Calls that leave records alone -/

/-- The records are the same. -/
def SkillWorld.SameSkills (w w' : SkillWorld) : Prop := w'.skills = w.skills

theorem SkillWorld.SameSkills.refl (w : SkillWorld) : w.SameSkills w := rfl

theorem SkillWorld.SameSkills.trans {w w' w'' : SkillWorld} (first : w.SameSkills w')
    (second : w'.SameSkills w'') : w.SameSkills w'' := Eq.trans second first

theorem sameSkills_pure {α : Type} (a : α) : Moves SkillWorld.SameSkills (pure a : SkillM α) :=
  fun w => .refl w

theorem sameSkills_bind {α β : Type} {x : SkillM α} {f : α → SkillM β}
    (first : Moves SkillWorld.SameSkills x) (later : ∀ a, Moves SkillWorld.SameSkills (f a)) :
    Moves SkillWorld.SameSkills (x >>= f) :=
  Moves.bind (R := SkillWorld.SameSkills) SkillWorld.SameSkills.trans first later

theorem sameSkills_get : Moves SkillWorld.SameSkills (get : SkillM SkillWorld) := fun w => .refl w

theorem sameSkills_ensure (c : Prop) [Decidable c] (e : SkillError) :
    Moves SkillWorld.SameSkills (ensure c e : SkillM Unit) :=
  Moves.ensure (R := SkillWorld.SameSkills) SkillWorld.SameSkills.refl c e

theorem sameSkills_raise (o : Option SkillError) : Moves SkillWorld.SameSkills (raise o : SkillM Unit) :=
  Moves.raise (R := SkillWorld.SameSkills) SkillWorld.SameSkills.refl o

theorem sameSkills_orRaise {α : Type} (o : Option α) (e : SkillError) :
    Moves SkillWorld.SameSkills (orRaise o e) := by
  cases o with
  | none => exact fun w => .refl w
  | some a => exact fun w => .refl w

theorem sameSkills_onSnapshots {α : Type} (x : SnapshotM α) :
    Moves SkillWorld.SameSkills (onSnapshots x) := by
  intro w
  rw [onSnapshots, wp_zoom]
  unfold wp
  split
  · exact rfl
  · exact rfl

theorem getSkill_sameSkills (skillId : SkillId) : Moves SkillWorld.SameSkills (getSkill skillId) :=
  sameSkills_bind sameSkills_get fun _ => sameSkills_orRaise _ _

theorem SkillHost.readBody_sameSkills (digest : Hash) :
    Moves SkillWorld.SameSkills (host.readBody digest) := by
  refine sameSkills_bind (sameSkills_onSnapshots _) fun content => ?_
  refine sameSkills_bind (sameSkills_orRaise _ _) fun text => ?_
  split
  · exact fun w => .refl w
  · exact sameSkills_bind (sameSkills_ensure _ _) fun _ => sameSkills_pure _

theorem enterActivation_sameSkills (ctx : SkillContext) (r : ActivateRequest) (runId : RunId)
    (digest : Hash) (entry : Option (ActivationRef × SkillActivation)) (fresh : ActivationRef)
    (now : Time) : Moves SkillWorld.SameSkills (enterActivation ctx r runId digest entry fresh now) := by
  cases entry with
  | some entry => exact sameSkills_bind (sameSkills_ensure _ _) fun _ => sameSkills_pure _
  | none => exact sameSkills_bind (.modify fun _ => rfl) fun _ => sameSkills_pure _

theorem SkillHost.activate_sameSkills (host : SkillHost) (authorize : SkillAuthorizer)
    (ctx : SkillContext) (r : ActivateRequest) (fresh : ActivationRef) (now : Time) :
    Moves SkillWorld.SameSkills (host.activate authorize ctx r fresh now) := by
  refine sameSkills_bind (sameSkills_orRaise _ _) fun runId => ?_
  refine sameSkills_bind (sameSkills_ensure _ _) fun _ => ?_
  refine sameSkills_bind (getSkill_sameSkills _) fun current => ?_
  refine sameSkills_bind sameSkills_get fun _ => ?_
  refine sameSkills_bind (sameSkills_ensure _ _) fun _ => ?_
  refine sameSkills_bind sameSkills_get fun _ => ?_
  refine sameSkills_bind (sameSkills_orRaise _ _) fun record => ?_
  refine sameSkills_bind (sameSkills_ensure _ _) fun _ => ?_
  refine sameSkills_bind (sameSkills_raise _) fun _ => ?_
  refine sameSkills_bind (sameSkills_raise _) fun _ => ?_
  refine sameSkills_bind (readBody_sameSkills _) fun body => ?_
  refine sameSkills_bind (enterActivation_sameSkills _ _ _ _ _ _ _) fun entered => ?_
  exact sameSkills_bind (sameSkills_onSnapshots _) fun _ => sameSkills_pure _

theorem SkillHost.readResource_sameSkills (host : SkillHost) (authorize : SkillAuthorizer)
    (ctx : SkillContext) (ref : ActivationRef) (resourceRef : String) :
    Moves SkillWorld.SameSkills (host.readResource authorize ctx ref resourceRef) := by
  refine sameSkills_bind sameSkills_get fun _ => ?_
  refine sameSkills_bind (sameSkills_orRaise _ _) fun activation => ?_
  refine sameSkills_bind (sameSkills_ensure _ _) fun _ => ?_
  refine sameSkills_bind (sameSkills_ensure _ _) fun _ => ?_
  refine sameSkills_bind (getSkill_sameSkills _) fun record => ?_
  refine sameSkills_bind (sameSkills_ensure _ _) fun _ => ?_
  refine sameSkills_bind (sameSkills_raise _) fun _ => ?_
  refine sameSkills_bind (sameSkills_onSnapshots _) fun content => ?_
  dsimp only
  split
  · exact sameSkills_bind (.modify fun _ => rfl) fun _ => sameSkills_pure _
  · exact sameSkills_pure _

theorem deactivate_sameSkills (ctx : SkillContext) (ref : ActivationRef) (reason : String) (now : Time) :
    Moves SkillWorld.SameSkills (deactivate ctx ref reason now) := by
  refine sameSkills_bind sameSkills_get fun _ => ?_
  refine sameSkills_bind (sameSkills_orRaise _ _) fun activation => ?_
  refine sameSkills_bind (sameSkills_ensure _ _) fun _ => ?_
  exact sameSkills_bind (.modify fun _ => rfl) fun _ => sameSkills_pure _

/-! ## The flag in every run -/

theorem SkillWorld.mem_listSkills {r : SkillRecord} :
    r ∈ w.listSkills ↔ ∃ id, w.skills.get id = some r := by
  simp only [listSkills, List.mem_map, List.mem_insertionSort, Prod.exists, Table.mem_rows,
    Records.get_eq_some]

theorem SkillWorld.marked_of_get {r : SkillRecord} (h : w.skills.get id = some r) :
    w.marked id = !r.validationDiagnostics.isEmpty := by
  rw [marked, h]
  rfl

theorem unmarked_of_enabledAs (h : enabledAs past w id = true) : w.marked id = false := by
  simp only [enabledAs, Bool.and_eq_true, Bool.not_eq_true'] at h
  cases past with
  | nil => exact h.2
  | cons entry past => exact (Bool.or_eq_false_iff.mp h.2).1

/-- A call that chooses nothing for the skill. -/
theorem enabledAs_cons_none {action : SkillAction} (nothing : w.choice id action = none) :
    enabledAs ((w, action) :: past) w' id = (enabledAs past w id && !w'.marked id) := by
  rw [enabledAs, lastChoice, markedSince, nothing, enabledAs]
  simp only [Option.getD_none, Option.isNone_none, Bool.true_and, Bool.not_or]
  rw [Bool.and_assoc, Bool.and_comm (!w'.marked id)]

theorem enabledAs_cons_some {action : SkillAction} {b : Bool} (chosen : w.choice id action = some b) :
    enabledAs ((w, action) :: past) w' id = (b && !w'.marked id) := by
  rw [enabledAs, lastChoice, markedSince, chosen]
  simp only [Option.getD_some, Option.isNone_some, Bool.false_and, Bool.or_false]

/-- The record is under its id, and its flag is as the past says; nothing has been chosen for a skill
that there is not. -/
structure SettledAt (past : List (SkillWorld × SkillAction)) (w : SkillWorld) (id : SkillId) : Prop where
  keyed : ∀ r, w.skills.get id = some r → r.skillId = id
  enabled : ∀ r, w.skills.get id = some r → r.enabled = enabledAs past w id
  absent : w.skills.get id = none → enabledAs past w id = true

/-- Every record is settled. -/
def Settled (past : List (SkillWorld × SkillAction)) (w : SkillWorld) : Prop := ∀ id, SettledAt past w id

theorem Settled.listed {r : SkillRecord} (settled : Settled past w) (mem : r ∈ w.listSkills) :
    w.skills.get r.skillId = some r := by
  obtain ⟨id, found⟩ := SkillWorld.mem_listSkills.mp mem
  rwa [(settled id).keyed r found]

/-- A call that leaves the record alone and chooses nothing for it. -/
theorem SettledAt.same {action : SkillAction} (settled : SettledAt past w id)
    (same : w'.skills.get id = w.skills.get id) (nothing : w.choice id action = none) :
    SettledAt ((w, action) :: past) w' id := by
  have marked : w'.marked id = w.marked id := by rw [SkillWorld.marked, SkillWorld.marked, same]
  have kept : enabledAs ((w, action) :: past) w' id = enabledAs past w id := by
    rw [enabledAs_cons_none nothing]
    cases h : enabledAs past w id with
    | false => rfl
    | true =>
        rw [marked, unmarked_of_enabledAs h]
        rfl
  refine ⟨fun r found => settled.keyed r (same ▸ found), fun r found => ?_, fun none => ?_⟩
  · rw [kept]
    exact settled.enabled r (same ▸ found)
  · rw [kept]
    exact settled.absent (same ▸ none)

/-- A record is put that has the flag of the past and the choice. -/
theorem SettledAt.put {action : SkillAction} {r : SkillRecord} (found : w'.skills.get id = some r)
    (keyed : r.skillId = id) (flag : r.enabled = enabledAs ((w, action) :: past) w' id) :
    SettledAt ((w, action) :: past) w' id := by
  refine ⟨fun r' found' => ?_, fun r' found' => ?_, fun none => ?_⟩
  · cases found.symm.trans found'
    exact keyed
  · cases found.symm.trans found'
    exact flag
  · cases found.symm.trans none

/-! ## Refreshing and configuring -/

section Refresh

variable {sources : List (String × SkillSource)} {sourceIds : Option (List String)}
  {fresh : Nat → Nat → SkillId} {r' : SkillRecord}

/-- A record that is written keeps the flag that there was, unless it is marked. -/
theorem Settled.written (settled : Settled past w) (draws : ∀ i j, w.skills.get (fresh i j) = none)
    (written : host.Written sources w.listSkills fresh r') :
    r'.enabled = (enabledAs past w r'.skillId && r'.validationDiagnostics.isEmpty) := by
  cases written with
  | @found sourceId source candidate metadata diagnostics digest i j listed mem scanned =>
      simp only [refreshedRecord]
      cases last : lastAt w.listSkills sourceId candidate.relativePath with
      | none =>
          rw [Option.map_none, Option.map_none, Option.getD_none, Option.getD_none,
            (settled _).absent (draws i j), Bool.and_comm]
      | some old =>
          have was := (settled _).enabled old (settled.listed (lastAt_mem last).1)
          rw [Option.map_some, Option.map_some, Option.getD_some, Option.getD_some, was, Bool.and_comm]
  | removed listed absent mem => exact (Bool.and_false _).symm

theorem Settled.refresh (settled : Settled past w) (draws : ∀ i j, w.skills.get (fresh i j) = none)
    (rewrites : host.Rewrites sources w.listSkills fresh w w') :
    Settled ((w, .refresh sources sourceIds fresh) :: past) w' := by
  intro id
  have nothing : w.choice id (.refresh sources sourceIds fresh) = none := rfl
  rcases rewrites.records id with same | ⟨r', found, rfl, written⟩
  · exact (settled id).same same nothing
  · refine .put found rfl ?_
    rw [enabledAs_cons_none nothing, SkillWorld.marked_of_get found, Bool.not_not]
    exact settled.written draws written

end Refresh

/-- What `configure` does when it returns. -/
theorem configure_wp (skillId : SkillId) (expectedRevision : Nat) (enabled : Option Bool)
    (trustState : Option TrustState) (w : SkillWorld) :
    wp (configure skillId expectedRevision enabled trustState)
      (fun _ t => ∃ current record, w.skills.get skillId = some current ∧
        (enabled = some true → current.validationDiagnostics = []) ∧
        record.skillId = current.skillId ∧ record.enabled = enabled.getD current.enabled ∧
        record.validationDiagnostics = current.validationDiagnostics ∧
        ∀ id, t.skills.get id = if id = skillId then some record else w.skills.get id)
      (fun _ t => t = w) w := by
  rw [configure, wp_bind]
  refine (getSkill_wp skillId w).mono ?_ fun _ _ h => h
  rintro current t ⟨rfl, found⟩
  refine wp_ensure_bind (fun _ => rfl) fun _ => ?_
  refine wp_ensure_bind (fun _ => rfl) fun valid => ?_
  rw [wp_bind, wp_get]
  split
  case h_1 skills accepted =>
    rw [wp_bind, wp_modify]
    obtain ⟨-, rfl⟩ := Records.compareAndSet_eq_ok.mp accepted
    refine ⟨current, { current with
      revision := expectedRevision + 1, enabled := enabled.getD current.enabled
      trustState := trustState.getD current.trustState }, found, valid, rfl, rfl, rfl, ?_⟩
    exact fun id => Records.get_put ..
  case h_2 => exact rfl

/-- A choice is a call that returns.  To enable a skill that is marked is refused. -/
theorem Settled.configure (settled : Settled past w) (skillId : SkillId) (expectedRevision : Nat)
    (enabled : Option Bool) (trustState : Option TrustState) :
    Settled ((w, .configure skillId expectedRevision enabled trustState) :: past)
      (afterCall (configure skillId expectedRevision enabled trustState) w) := by
  intro id
  have effect := configure_wp skillId expectedRevision enabled trustState w
  unfold wp at effect
  cases result : MiHarness.configure skillId expectedRevision enabled trustState w with
  | error e t =>
      rw [result] at effect
      rw [afterCall, result]
      refine (settled id).same (by rw [effect]) ?_
      rw [SkillWorld.choice, result]
  | ok out t =>
      rw [result] at effect
      rw [afterCall, result]
      obtain ⟨current, record, found, valid, keyed, flag, diagnostics, records⟩ := effect
      have chooses : w.choice id (.configure skillId expectedRevision enabled trustState) =
          if skillId = id then enabled else none := by rw [SkillWorld.choice, result]
      by_cases here : skillId = id
      · subst here
        rw [if_pos rfl] at chooses
        have row : t.skills.get skillId = some record := by rw [records, if_pos rfl]
        refine .put row (keyed.trans ((settled skillId).keyed _ found)) ?_
        have marked : t.marked skillId = !current.validationDiagnostics.isEmpty := by
          rw [SkillWorld.marked_of_get row, diagnostics]
        cases enabled with
        | none =>
            rw [enabledAs_cons_none chooses, flag, Option.getD_none, (settled skillId).enabled _ found]
            cases h : enabledAs past w skillId with
            | false => rfl
            | true =>
                rw [marked, ← SkillWorld.marked_of_get found, unmarked_of_enabledAs h]
                rfl
        | some b =>
            rw [enabledAs_cons_some chooses, flag, Option.getD_some, marked, Bool.not_not]
            cases b with
            | false => rfl
            | true =>
                rw [valid rfl]
                rfl
      · exact (settled id).same (by rw [records, if_neg (Ne.symm here)]) (chooses.trans (if_neg here))

theorem SkillHost.refresh_rewrites (host : SkillHost) (sources : List (String × SkillSource))
    (sourceIds : Option (List String)) (fresh : Nat → Nat → SkillId) (w : SkillWorld) :
    host.Rewrites sources w.listSkills fresh w (afterCall (host.refresh sources sourceIds fresh) w) :=
  afterCall_of_wp ((host.refresh_wp sources sourceIds fresh w).mono
    (fun _ _ rewrites => rewrites.1) fun _ _ rewrites => rewrites)

/-- In every run from the first start the flag of a skill is what the user has chosen, cleared by each mark
since. -/
theorem SkillHost.settled (history : host.enabling.History past w) : Settled past w := by
  refine history.invariant (fun w start id => ?_) fun past w action w' _ settled step => ?_
  · have none : w.skills.get id = none := by
      rw [start.2]
      rfl
    refine ⟨fun r found => ?_, fun r found => ?_, fun _ => ?_⟩
    · cases none.symm.trans found
    · cases none.symm.trans found
    · rw [enabledAs, lastChoice, markedSince, SkillWorld.marked, none]
      rfl
  · obtain ⟨draws, step⟩ := step
    cases action with
    | refresh sources sourceIds fresh =>
        cases step
        exact settled.refresh draws (host.refresh_rewrites sources sourceIds fresh w)
    | configure skillId expectedRevision enabled trustState =>
        cases step
        exact settled.configure skillId expectedRevision enabled trustState
    | activate authorize ctx r fresh now =>
        have step : host.next w (.activate authorize ctx r fresh now) = some w' := step
        rw [next] at step
        split at step
        case isTrue =>
          cases step
          have same := afterCall_of_wp (host.activate_sameSkills authorize ctx r fresh now w)
          exact fun id => (settled id).same (by rw [same]) rfl
        case isFalse => cases step
    | readResource authorize ctx ref resourceRef =>
        cases step
        have same := afterCall_of_wp (host.readResource_sameSkills authorize ctx ref resourceRef w)
        exact fun id => (settled id).same (by rw [same]) rfl
    | deactivate ctx ref reason now =>
        cases step
        have same := afterCall_of_wp (deactivate_sameSkills ctx ref reason now w)
        exact fun id => (settled id).same (by rw [same]) rfl

/-! ## After a refresh -/

/-- The skill cannot be activated, and nothing is read through an activation of it. -/
structure SkillHost.Unusable (host : SkillHost) (w : SkillWorld) (id : SkillId) : Prop where
  activate : ∀ authorize ctx r fresh now activated w', r.skillId = id →
    w.activations.get? fresh = none → host.activate authorize ctx r fresh now w ≠ .ok activated w'
  readResource : ∀ authorize ctx ref resourceRef a content w', w.activations.get? ref = some a →
    a.skillId = id → host.readResource authorize ctx ref resourceRef w ≠ .ok content w'

theorem SkillHost.unusable_of_disabled {r : SkillRecord} (found : w.skills.get id = some r)
    (disabled : r.enabled = false) : host.Unusable w id := by
  refine ⟨fun authorize ctx request fresh now activated w' same unused activates => ?_,
    fun authorize ctx ref resourceRef a content w' row same reads => ?_⟩
  · have entered := host.activate_wp authorize ctx request now unused
    unfold wp at entered
    rw [activates] at entered
    obtain ⟨record, found', enabled, -⟩ := entered.2.usable
    rw [same] at found'
    cases found.symm.trans found'
    cases disabled.symm.trans enabled
  · have read := host.readResource_wp authorize ctx ref resourceRef w
    unfold wp at read
    rw [reads] at read
    obtain ⟨a', row', -, ⟨record, found', enabled, -⟩, -⟩ := read.2.activation
    cases row.symm.trans row'
    rw [same] at found'
    cases found.symm.trans found'
    cases disabled.symm.trans enabled

/-- A refresh that finds the files of a skill right leaves it as the user has chosen, exactly if it was not
to be enabled or no refresh has marked it since the choice; one that marks it leaves it unusable.  A record
says what the refresh has found of the files, or is as it was; and a refresh that returns has looked at
every skill of its sources, unless a later record has the same path. -/
theorem skill_enablement {sources : List (String × SkillSource)} {sourceIds : Option (List String)}
    {fresh : Nat → Nat → SkillId} {r' : SkillRecord} (history : host.enabling.History past w)
    (step : host.enabling.step w (.refresh sources sourceIds fresh) w')
    (record : w'.skills.get id = some r') :
    (r'.validationDiagnostics = [] → (r'.enabled = lastChoice id past ↔
      (lastChoice id past = true → markedSince w id past = false))) ∧
    (r'.validationDiagnostics ≠ [] → r'.enabled = false ∧ host.Unusable w' id) ∧
    (w.skills.get id = some r' ∨
      host.Finds sources r'.sourceId r'.relativePath r'.validationDiagnostics) ∧
    ∀ report, host.refresh sources sourceIds fresh w = .ok report w' →
      r'.sourceId ∈ chosenSources sources sourceIds →
      (∀ r, lastAt w.listSkills r'.sourceId r'.relativePath = some r → r.skillId = id) →
      host.Finds sources r'.sourceId r'.relativePath r'.validationDiagnostics := by
  have settled := SkillHost.settled history
  have flag := ((SkillHost.settled (history.step step)) id).enabled r' record
  rw [enabledAs_cons_none rfl, SkillWorld.marked_of_get record, Bool.not_not, enabledAs] at flag
  have rewrites : host.Rewrites sources w.listSkills fresh w w' := by
    obtain ⟨-, step⟩ := step
    cases step
    exact host.refresh_rewrites sources sourceIds fresh w
  refine ⟨fun valid => ?_, fun invalid => ?_, ?_, fun report returns chosen last => ?_⟩
  · rw [flag, valid]
    cases lastChoice id past with
    | false => simp
    | true => simp
  · have disabled : r'.enabled = false := by
      rw [flag, List.isEmpty_eq_false_iff.mpr invalid, Bool.and_false]
    exact ⟨disabled, SkillHost.unusable_of_disabled record disabled⟩
  · rcases rewrites.records id with same | ⟨r, found, -, written⟩
    · exact .inl (same ▸ record)
    · cases found.symm.trans record
      exact .inr written.finds
  · rcases rewrites.records id with same | ⟨r, found, -, written⟩
    · have looked := host.refresh_wp sources sourceIds fresh w
      unfold wp at looked
      rw [returns] at looked
      have before : w.skills.get id = some r' := same ▸ record
      obtain ⟨r, at'⟩ := lastAt_of_mem (SkillWorld.mem_listSkills.mpr ⟨id, before⟩)
      have row := settled.listed (lastAt_mem at').1
      rw [last r at'] at row
      cases before.symm.trans row
      obtain ⟨r, found, -, written⟩ := looked.2 r' chosen at'
      rw [(settled id).keyed r' before, record] at found
      cases found
      exact written.finds
    · cases found.symm.trans record
      exact written.finds

namespace Sample

/-- The files of the skill cannot be read. -/
def lockedSource : SkillSource :=
  { skillSource with bundle := fun _ => .error { kind := .permission, text := "locked" } }

def scanned (source : SkillSource) (fresh : SkillId) (w : SkillWorld) : SkillWorld :=
  afterCall (skillHost.refresh [("s", source)] none fun _ _ => fresh) w

theorem scanned_first : (scanned skillSource 1 noSkills).skills.get 2 = none := by decide

theorem scanned_again :
    (scanned lockedSource 2 (scanned skillSource 1 noSkills)).skills.get 3 = none ∧
    ((scanned skillSource 3 (scanned lockedSource 2 (scanned skillSource 1 noSkills))).skills.get 1).any
      (fun r => r.validationDiagnostics = [] ∧ r.enabled = false) = true := by
  decide

theorem scanned_step (source : SkillSource) {fresh : SkillId} (draws : w.skills.get fresh = none) :
    skillHost.enabling.step w (.refresh [("s", source)] none fun _ _ => fresh) (scanned source fresh w) :=
  ⟨fun _ _ => draws, rfl⟩

/-- The user disables the skill that the first refresh has found. -/
def disabling : SkillAction := .configure 1 1 (some false) none

def disabled : SkillWorld := afterCall (configure 1 1 (some false) none) (scanned skillSource 1 noSkills)

/-- Then its files cannot be read. -/
def locked : SkillWorld := scanned lockedSource 2 disabled

theorem disabled_chosen : (scanned skillSource 1 noSkills).choice 1 disabling = some false ∧
    disabled.skills.get 2 = none := by
  decide

theorem locked_marked : locked.skills.get 3 = none ∧
    (locked.skills.get 1).any (·.validationDiagnostics ≠ []) = true ∧
    ((scanned skillSource 3 locked).skills.get 1).any (·.validationDiagnostics = []) = true := by
  decide +kernel

end Sample

/-- A skill that was disabled is unusable while its files cannot be read, and disabled when they can be read
again. -/
theorem skill_enablement_scanned : ∃ past r', Sample.skillHost.enabling.History past Sample.locked ∧
    Sample.skillHost.Unusable Sample.locked 1 ∧ lastChoice 1 past = false ∧
    (Sample.scanned Sample.skillSource 3 Sample.locked).skills.get 1 = some r' ∧
    r'.validationDiagnostics = [] ∧ r'.enabled = false := by
  obtain ⟨unused, marked, again⟩ := Sample.locked_marked
  obtain ⟨r, found, invalid⟩ := (Option.any_eq_true ..).mp marked
  obtain ⟨r', found', valid⟩ := (Option.any_eq_true ..).mp again
  have start : Sample.skillHost.enabling.History [] Sample.noSkills := .init ⟨⟨rfl, rfl⟩, rfl⟩
  have unknown : Sample.noSkills.skills.get 1 = none := rfl
  have first := start.step (Sample.scanned_step Sample.skillSource unknown)
  have disables : Sample.skillHost.enabling.step (Sample.scanned Sample.skillSource 1 Sample.noSkills)
      Sample.disabling Sample.disabled := ⟨trivial, rfl⟩
  have chosen := first.step disables
  have locks := Sample.scanned_step Sample.lockedSource Sample.disabled_chosen.2
  obtain ⟨past, history, choice⟩ :
      ∃ past, Sample.skillHost.enabling.History past Sample.locked ∧ lastChoice 1 past = false := by
    refine ⟨_, chosen.step locks, ?_⟩
    show (none : Option Bool).getD ((SkillWorld.choice _ 1 Sample.disabling).getD true) = false
    rw [Sample.disabled_chosen.1]
    rfl
  have unusable := ((skill_enablement chosen locks found).2.1 (of_decide_eq_true invalid)).2
  have scans := Sample.scanned_step Sample.skillSource unused
  have follows := (skill_enablement history scans found').1 (of_decide_eq_true valid)
  refine ⟨past, r', history, unusable, choice, found', of_decide_eq_true valid, ?_⟩
  rw [← choice]
  refine follows.mpr fun enabled => ?_
  rw [choice] at enabled
  cases enabled

/-- The files cannot be read once, and the skill that nobody has disabled stays disabled. -/
theorem choice_lost : ∃ past w w' r' sources fresh, Sample.skillHost.enabling.History past w ∧
    Sample.skillHost.enabling.step w (.refresh sources none fresh) w' ∧ w'.skills.get 1 = some r' ∧
    r'.validationDiagnostics = [] ∧ r'.enabled ≠ lastChoice 1 past := by
  obtain ⟨r', found, lost⟩ := (Option.any_eq_true ..).mp Sample.scanned_again.2
  obtain ⟨valid, disabled⟩ := of_decide_eq_true lost
  have start : Sample.skillHost.enabling.History [] Sample.noSkills := .init ⟨⟨rfl, rfl⟩, rfl⟩
  have history := (start.step (Sample.scanned_step Sample.skillSource rfl)).step
    (Sample.scanned_step Sample.lockedSource Sample.scanned_first)
  refine ⟨_, _, _, r', _, _, history, Sample.scanned_step Sample.skillSource Sample.scanned_again.1, found,
    valid, ?_⟩
  rw [disabled]
  exact Bool.false_ne_true

end MiHarness

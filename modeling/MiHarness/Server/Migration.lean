import MiHarness.Core.Json
import MiHarness.Gateway.Limits
import MiHarness.Storage.Versioned

/-!
# The migration of models

A start of the service publishes a new revision of every model whose limits are from before the two tiers
of the context window, and names it in the default agent where that named the revision before.

A reference is never published again: the migration only adds to `model_profiles` and to
`model_endpoint_grants` (`Versioned.Keeps`).  It succeeds because no revision above the one that is
configured has been published (`ModelDatabase.Sound`).
-/

namespace MiHarness

open Library

/-! ## Tables -/

/-- A `ModelProfile`; the migration copies the other fields. -/
structure LimitedProfile where
  profileId : String
  revision : Nat := 1
  limits : ModelLimits := {}
  others : Json
deriving DecidableEq

def LimitedProfile.ref (p : LimitedProfile) : String := profileRef p.profileId p.revision

/-- A record of `config/models`. -/
structure ModelConfig where
  id : String
  profile : LimitedProfile

/-- `config.get("profile_id") or config.get("id")`. -/
def ModelConfig.identity (c : ModelConfig) : String :=
  if c.profile.profileId = "" then c.id else c.profile.profileId

/-- A record of `model_endpoint_grants`. -/
structure ModelGrant where
  profileRef : String
  source : String
  createdAt : String
  others : Json

abbrev ModelPolicy := List (String × JsonData)

/-- A record of `config/agents`. -/
structure AgentConfig where
  revision : Nat := 1
  modelPolicy : ModelPolicy := [("profile_ref", .string "demo@1")]
  others : Json

/-- The namespaces that the migration reads, and all others, such as the snapshots of runs. -/
structure ModelDatabase where
  configs : Versioned String ModelConfig := {}
  profiles : Versioned String LimitedProfile := {}
  grants : Versioned String ModelGrant := {}
  agents : Versioned String AgentConfig := {}
  others : Versioned (String × String) Json := {}

/-- The database and `ModelGateway.profiles`. -/
structure ModelServices where
  tables : ModelDatabase := {}
  registry : String → Option LimitedProfile := fun _ => none

/-! ## The migration -/

/-- The state of the loop, with the new reference for each old one. -/
structure Migrating extends ModelServices where
  replacements : List (String × String) := []

/-- The grant of the new revision. -/
def ModelGrant.copied (g : ModelGrant) (ref now : String) : ModelGrant :=
  { g with profileRef := ref, source := "model_context_default_migration", createdAt := now }

def copyGrant (grants : Versioned String ModelGrant) (old ref now : String) :
    Except MigrationFault (Versioned String ModelGrant) :=
  match grants.get old with
  | some previous => (grants.compareAndSet ref none (previous.copied ref now)).mapError .harness
  | none => .ok grants

/-- A turn of the loop. -/
def migrateModel (now : String) (st : Migrating) (config : ModelConfig) :
    Except MigrationFault Migrating := do
  let profile := config.profile
  if profile.limits.needsMigration = false then return st
  else
    let limits ← profile.limits.migrate
    let migrated := { profile with revision := profile.revision + 1, limits }
    let configs ← (st.tables.configs.compareAndSet config.identity (some profile.revision)
      { id := config.identity, profile := migrated }).mapError .harness
    let profiles ← (st.tables.profiles.compareAndSet migrated.ref none migrated).mapError .harness
    let grants ← copyGrant st.tables.grants profile.ref migrated.ref now
    return {
      tables := { st.tables with configs, profiles, grants }
      registry := Function.update st.registry migrated.ref (some migrated)
      replacements := (profile.ref, migrated.ref) :: st.replacements }

/-- `policy.get(field) in replacements`, with the reference it is replaced by. -/
def newReference (replacements : List (String × String)) :
    Option JsonData → Except MigrationFault (Option String)
  | some (.string ref) => .ok (replacements.lookup ref)
  | some (.array _) | some (.object _) => .error .type
  | _ => .ok none

def agentReferences : List String := ["profile_ref", "summary_profile_ref"]

/-- A turn of the loop over the references, which also tells whether it has changed one. -/
def replaceReference (replacements : List (String × String)) (state : ModelPolicy × Bool)
    (field : String) : Except MigrationFault (ModelPolicy × Bool) := do
  match ← newReference replacements (state.1.lookup field) with
  | some ref =>
      return (state.1.map fun entry => if entry.1 = field then (field, .string ref) else entry, true)
  | none => return state

/-- What the migration does to the default agent. -/
def migrateAgent (agents : Versioned String AgentConfig) (replacements : List (String × String)) :
    Except MigrationFault (Versioned String AgentConfig) := do
  let agent ← orThrow (agents.get "default") .type
  let (policy, changed) ← agentReferences.foldlM (replaceReference replacements) (agent.modelPolicy, false)
  if changed = true then
    (agents.compareAndSet "default" (some agent.revision)
      { agent with revision := agent.revision + 1, modelPolicy := policy }).mapError .harness
  else return agents

/-- `_migrate_model_context_defaults`. -/
def migrateModelContextDefaults (now : String) (s : ModelServices) :
    Except MigrationFault ModelServices := do
  let st ← s.tables.configs.list.foldlM (migrateModel now) { s with replacements := [] }
  if st.replacements = [] then return st.toModelServices
  else
    let agents ← migrateAgent st.tables.agents st.replacements
    return { st.toModelServices with tables := { st.tables with agents } }

/-! ## What the writers keep -/

/-- A model after the migration. -/
def LimitedProfile.migrated (p : LimitedProfile) : LimitedProfile :=
  { p with revision := p.revision + 1, limits := p.limits.migrated }

def ModelConfig.needs (c : ModelConfig) : Bool := c.profile.limits.needsMigration

/-- A record of `config/models` after the migration. -/
def ModelConfig.after (c : ModelConfig) : ModelConfig :=
  if c.needs = true then { c with profile := c.profile.migrated } else c

/-- A value that can be a key of a dictionary. -/
def JsonData.hashable : JsonData → Bool
  | .array _ | .object _ => false
  | _ => true

/-- The default agent is there, and what it names as its models are references. -/
structure AgentSound (agents : Versioned String AgentConfig) : Prop where
  current : ∃ record, agents.records.get? "default" = some record ∧
    record.payload.revision = record.revision ∧
    (∀ revision, record.revision < revision → agents.versions.get? ("default", revision) = none) ∧
    ∀ field ∈ agentReferences, (record.payload.modelPolicy.lookup field).all JsonData.hashable = true

/-- Each model is under its id and has the revision of its record, and nothing has been published or
granted for a later revision. -/
structure ModelDatabase.Ordered (t : ModelDatabase) : Prop where
  keyed : ∀ id record, t.configs.records.get? id = some record →
    record.payload.id = id ∧ record.payload.profile.profileId = id ∧
      record.payload.profile.revision = record.revision
  versions : ∀ id revision, t.configs.records.revision id < revision →
    t.configs.versions.get? (id, revision) = none
  profiles : ∀ id revision, t.configs.records.revision id < revision →
    t.profiles.Absent (profileRef id revision)
  grants : ∀ id revision, t.configs.records.revision id < revision →
    t.grants.Absent (profileRef id revision)

/-- What the writers keep. -/
structure ModelDatabase.Sound (t : ModelDatabase) : Prop extends t.Ordered where
  agents : AgentSound t.agents

section Sound

variable {t t' : ModelDatabase} {id : String} {n : Nat} {c : ModelConfig}

theorem ModelDatabase.Ordered.congr (ordered : t.Ordered) (configs : t'.configs = t.configs)
    (profiles : t'.profiles = t.profiles) (grants : t'.grants = t.grants) : t'.Ordered := by
  obtain ⟨keyed, versions, published, granted⟩ := ordered
  rw [← configs] at keyed versions published granted
  rw [← profiles] at published
  rw [← grants] at granted
  exact ⟨keyed, versions, published, granted⟩

/-- A revision is published that is the next one of its model: in `config/models`, and perhaps under its
reference. -/
theorem ModelDatabase.Ordered.publish (sound : t.Ordered) (wrote : t.configs.Wrote id n c t'.configs)
    (key : c.id = id) (profileId : c.profile.profileId = id) (revision : c.profile.revision = n + 1)
    (profiles : ∀ ref, ref ≠ profileRef id (n + 1) → t.profiles.Absent ref → t'.profiles.Absent ref)
    (grants : ∀ ref, ref ≠ profileRef id (n + 1) → t.grants.Absent ref → t'.grants.Absent ref) :
    t'.Ordered := by
  have here : t'.configs.records.revision id = n + 1 := by
    rw [Records.revision, wrote.records, if_pos rfl]
    rfl
  have elsewhere : ∀ {id'}, id' ≠ id → t'.configs.records.revision id' = t.configs.records.revision id' :=
    fun other => by rw [Records.revision, Records.revision, wrote.records, if_neg other]
  -- a later revision was later before, and is under another reference
  have later : ∀ {id' revision'}, t'.configs.records.revision id' < revision' →
      t.configs.records.revision id' < revision' ∧ profileRef id' revision' ≠ profileRef id (n + 1) := by
    intro id' revision' above
    by_cases same : id' = id
    · subst same
      rw [here] at above
      rw [wrote.current]
      refine ⟨by omega, fun refs => ?_⟩
      have := (profileRef_inj refs).2
      omega
    · rw [elsewhere same] at above
      exact ⟨above, fun refs => same (profileRef_inj refs).1⟩
  refine ⟨fun id' record row => ?_, fun id' revision' above => ?_, fun id' revision' above => ?_,
    fun id' revision' above => ?_⟩
  · rw [wrote.records] at row
    split at row
    case isTrue same =>
      cases row
      exact ⟨key.trans same.symm, profileId.trans same.symm, revision⟩
    case isFalse => exact sound.keyed id' record row
  · rw [wrote.versions, if_neg, sound.versions id' revision' (later above).1]
    rintro ⟨rfl, rfl⟩
    rw [here] at above
    exact absurd above (Nat.lt_irrefl _)
  · exact profiles _ (later above).2 (sound.profiles id' revision' (later above).1)
  · exact grants _ (later above).2 (sound.grants id' revision' (later above).1)

/-- A new revision of the default agent. -/
theorem AgentSound.write {agents agents' : Versioned String AgentConfig} {agent : AgentConfig}
    (sound : AgentSound agents) (wrote : agents.Wrote "default" n agent agents')
    (revision : agent.revision = n + 1)
    (hashable : ∀ field ∈ agentReferences, (agent.modelPolicy.lookup field).all JsonData.hashable = true) :
    AgentSound agents' := by
  obtain ⟨record, row, -, free, -⟩ := sound.current
  have current : record.revision = n := (Records.revision_of_get row).symm.trans wrote.current
  refine ⟨_, (wrote.records _).trans (if_pos rfl), revision, fun revision' above => ?_, hashable⟩
  have above : n + 1 < revision' := above
  rw [wrote.versions, if_neg fun h => Nat.ne_of_gt above h.2]
  exact free revision' (by omega)

end Sound

/-! ## A turn -/

section Turn

variable {now : String} {st st' : Migrating} {c c' : ModelConfig}

/-- The record of the model is as it was listed, and its next revision is free. -/
structure Ready (st : Migrating) (c : ModelConfig) : Prop where
  id : c.profile.profileId = c.id
  current : st.tables.configs.records.get? c.id = some ⟨c.profile.revision, c⟩
  free : st.tables.configs.versions.get? (c.id, c.profile.revision + 1) = none
  profile : st.tables.profiles.Absent c.profile.migrated.ref
  grant : st.tables.grants.Absent c.profile.migrated.ref

/-- What the turn for a model that needs it has done. -/
structure Turned (now : String) (c : ModelConfig) (st st' : Migrating) : Prop where
  configs : st.tables.configs.Wrote c.id c.profile.revision c.after st'.tables.configs
  profiles : st.tables.profiles.Wrote c.profile.migrated.ref 0 c.profile.migrated st'.tables.profiles
  grants : (st.tables.grants.get c.profile.ref = none ∧ st'.tables.grants = st.tables.grants) ∨
    ∃ g, st.tables.grants.get c.profile.ref = some g ∧
      st.tables.grants.Wrote c.profile.migrated.ref 0 (g.copied c.profile.migrated.ref now)
        st'.tables.grants
  agents : st'.tables.agents = st.tables.agents
  others : st'.tables.others = st.tables.others
  replacements : st'.replacements = (c.profile.ref, c.profile.migrated.ref) :: st.replacements

theorem migrated_ref (c : ModelConfig) :
    c.profile.migrated.ref = profileRef c.profile.profileId (c.profile.revision + 1) := rfl

theorem Ready.identity (ready : Ready st c) : c.identity = c.id := by
  rw [ModelConfig.identity]
  split
  · rfl
  · exact ready.id

theorem copyGrant_ok {grants : Versioned String ModelGrant} {ref : String} (absent : grants.Absent ref)
    (old now : String) : ∃ grants', copyGrant grants old ref now = .ok grants' ∧
      ((grants.get old = none ∧ grants' = grants) ∨
        ∃ g, grants.get old = some g ∧ grants.Wrote ref 0 (g.copied ref now) grants') := by
  unfold copyGrant
  cases found : grants.get old with
  | none => exact ⟨grants, rfl, .inl ⟨rfl, rfl⟩⟩
  | some g =>
      have current : grants.records.revision ref = (none : Option Nat).getD 0 := by
        rw [Records.revision, absent.1]
        rfl
      obtain ⟨grants', written⟩ :=
        Versioned.compareAndSet_of_free current (absent.2 _) (g.copied ref now)
      refine ⟨grants', mapError_eq_ok.mpr written, .inr ⟨g, rfl, ?_⟩⟩
      exact Versioned.wrote_of_compareAndSet written

theorem migrateModel_settled (settled : c.needs = false) : migrateModel now st c = .ok st := by
  have none : c.profile.limits.needsMigration = false := settled
  rw [migrateModel, if_pos none]
  rfl

theorem Ready.turn (ready : Ready st c) (needs : c.needs = true) (now : String) :
    ∃ st', migrateModel now st c = .ok st' ∧ Turned now c st st' := by
  have current : st.tables.configs.records.revision c.id = (some c.profile.revision).getD 0 :=
    Records.revision_of_get ready.current
  have absent : st.tables.profiles.records.revision c.profile.migrated.ref = (none : Option Nat).getD 0 := by
    rw [Records.revision, ready.profile.1]
    rfl
  obtain ⟨configs, configsWritten⟩ := Versioned.compareAndSet_of_free current ready.free c.after
  obtain ⟨profiles, profilesWritten⟩ :=
    Versioned.compareAndSet_of_free absent (ready.profile.2 _) c.profile.migrated
  obtain ⟨grants, copied, granted⟩ := copyGrant_ok ready.grant c.profile.ref now
  have after : c.after = { id := c.id, profile := c.profile.migrated } := if_pos needs
  rw [after] at configsWritten
  refine ⟨{ tables := { st.tables with configs, profiles, grants }
            registry := Function.update st.registry c.profile.migrated.ref (some c.profile.migrated)
            replacements := (c.profile.ref, c.profile.migrated.ref) :: st.replacements }, ?_, ?_⟩
  · have moves : ¬c.profile.limits.needsMigration = false := by
      rw [Bool.not_eq_false]
      exact needs
    rw [migrateModel, if_neg moves, ModelLimits.migrate_eq, ok_bind, ready.identity]
    exact bind_eq_ok.mpr ⟨configs, mapError_eq_ok.mpr configsWritten,
      bind_eq_ok.mpr ⟨profiles, mapError_eq_ok.mpr profilesWritten, bind_eq_ok.mpr ⟨grants, copied, rfl⟩⟩⟩
  · exact ⟨after ▸ Versioned.wrote_of_compareAndSet configsWritten,
      Versioned.wrote_of_compareAndSet profilesWritten, granted, rfl, rfl, rfl⟩

theorem ModelDatabase.Sound.ready (sound : st.tables.Sound)
    (row : st.tables.configs.records.get? c.id = some ⟨c.profile.revision, c⟩) : Ready st c := by
  obtain ⟨-, id, -⟩ := sound.keyed c.id _ row
  have next : st.tables.configs.records.revision c.id < c.profile.revision + 1 := by
    rw [Records.revision_of_get row]
    exact Nat.lt_succ_self _
  refine ⟨id, row, sound.versions c.id _ next, ?_, ?_⟩
  · rw [migrated_ref, show c.profile.profileId = c.id from id]
    exact sound.profiles c.id _ next
  · rw [migrated_ref, show c.profile.profileId = c.id from id]
    exact sound.grants c.id _ next

theorem Turned.sound (turned : Turned now c st st') (needs : c.needs = true) (ready : Ready st c)
    (sound : st.tables.Sound) : st'.tables.Sound := by
  have ref : c.profile.migrated.ref = profileRef c.id (c.profile.revision + 1) := by
    rw [migrated_ref, ready.id]
  have after : c.after = { c with profile := c.profile.migrated } := if_pos needs
  have configs := turned.configs
  rw [after] at configs
  refine ⟨sound.publish configs rfl ready.id rfl (fun other different absent => ?_)
    (fun other different absent => ?_), turned.agents ▸ sound.agents⟩
  · exact absent.other turned.profiles (ref ▸ different)
  · rcases turned.grants with ⟨-, same⟩ | ⟨g, -, wrote⟩
    · rw [same]
      exact absent
    · exact absent.other wrote (ref ▸ different)

end Turn

/-! ## The loop -/

section Loop

variable {now : String} {st st' st'' : Migrating} {cs : List ModelConfig} {c : ModelConfig}

/-- The new reference for each old one. -/
def replacementsOf (cs : List ModelConfig) : List (String × String) :=
  (cs.filter ModelConfig.needs).map fun c => (c.profile.ref, c.profile.migrated.ref)

/-- What the loop over these models has done. -/
structure Passed (now : String) (cs : List ModelConfig) (st st' : Migrating) : Prop where
  configs : ∀ c ∈ cs, st'.tables.configs.records.get? c.id = some ⟨c.after.profile.revision, c.after⟩
  elsewhere : ∀ id, (∀ c ∈ cs, c.id ≠ id) →
    st'.tables.configs.records.get? id = st.tables.configs.records.get? id
  versions : ∀ key value, st.tables.configs.versions.get? key = some value →
    st'.tables.configs.versions.get? key = some value
  profiles : st.tables.profiles.Keeps st'.tables.profiles
  grants : st.tables.grants.Keeps st'.tables.grants
  published : ∀ c ∈ cs, c.needs = true →
    st'.tables.profiles.get c.profile.migrated.ref = some c.profile.migrated
  granted : ∀ c ∈ cs, c.needs = true → ∀ g, st.tables.grants.get c.profile.ref = some g →
    st'.tables.grants.get c.profile.migrated.ref = some (g.copied c.profile.migrated.ref now)
  agents : st'.tables.agents = st.tables.agents
  others : st'.tables.others = st.tables.others
  replacements : st'.replacements = (replacementsOf cs).reverse ++ st.replacements

theorem Passed.nil : Passed now [] st st where
  configs _ mem := absurd mem List.not_mem_nil
  elsewhere _ _ := rfl
  versions _ _ h := h
  profiles := .refl _
  grants := .refl _
  published _ mem := absurd mem List.not_mem_nil
  granted _ mem := absurd mem List.not_mem_nil
  agents := rfl
  others := rfl
  replacements := rfl

theorem ModelConfig.after_of_needs (needs : c.needs = true) :
    c.after = { c with profile := c.profile.migrated } := if_pos needs

theorem ModelConfig.after_of_settled (settled : c.needs = false) : c.after = c :=
  if_neg (Bool.not_eq_true _ ▸ settled)

theorem Passed.skip (ready : Ready st c) (settled : c.needs = false) (apart : ∀ c' ∈ cs, c'.id ≠ c.id)
    (passed : Passed now cs st st') : Passed now (c :: cs) st st' where
  configs c' mem := by
    rcases List.mem_cons.mp mem with rfl | mem
    · rw [passed.elsewhere c'.id apart, ModelConfig.after_of_settled settled]
      exact ready.current
    · exact passed.configs c' mem
  elsewhere id others := passed.elsewhere id fun c' mem => others c' (List.mem_cons_of_mem _ mem)
  versions := passed.versions
  profiles := passed.profiles
  grants := passed.grants
  published c' mem needs := by
    rcases List.mem_cons.mp mem with rfl | mem
    · cases settled.symm.trans needs
    · exact passed.published c' mem needs
  granted c' mem needs := by
    rcases List.mem_cons.mp mem with rfl | mem
    · cases settled.symm.trans needs
    · exact passed.granted c' mem needs
  agents := passed.agents
  others := passed.others
  replacements := by
    have same : replacementsOf (c :: cs) = replacementsOf cs := by
      rw [replacementsOf, List.filter_cons_of_neg (by rw [settled]; decide)]
      rfl
    rw [same, passed.replacements]

theorem Turned.grants_keep (turned : Turned now c st st') (ready : Ready st c) :
    st.tables.grants.Keeps st'.tables.grants := by
  rcases turned.grants with ⟨-, same⟩ | ⟨g, -, wrote⟩
  · rw [same]
    exact .refl _
  · exact wrote.keeps ready.grant

theorem Passed.cons (ready : Ready st c) (needs : c.needs = true) (turned : Turned now c st st')
    (apart : ∀ c' ∈ cs, c'.id ≠ c.id) (passed : Passed now cs st' st'') :
    Passed now (c :: cs) st st'' where
  configs c' mem := by
    rcases List.mem_cons.mp mem with rfl | mem
    · rw [passed.elsewhere c'.id apart, turned.configs.records, if_pos rfl,
        ModelConfig.after_of_needs needs]
      rfl
    · exact passed.configs c' mem
  elsewhere id others := by
    rw [passed.elsewhere id fun c' mem => others c' (List.mem_cons_of_mem _ mem),
      turned.configs.records, if_neg (others c List.mem_cons_self).symm]
  versions key value h := passed.versions key value (turned.configs.keeps_versions h)
  profiles := (turned.profiles.keeps ready.profile).trans passed.profiles
  grants := (turned.grants_keep ready).trans passed.grants
  published c' mem needs' := by
    rcases List.mem_cons.mp mem with rfl | mem
    · exact passed.profiles.get turned.profiles.get
    · exact passed.published c' mem needs'
  granted c' mem needs' g found := by
    rcases List.mem_cons.mp mem with rfl | mem
    · rcases turned.grants with ⟨none, -⟩ | ⟨g', found', wrote⟩
      · cases none.symm.trans found
      · cases found'.symm.trans found
        exact passed.grants.get wrote.get
    · exact passed.granted c' mem needs' g ((turned.grants_keep ready).get found)
  agents := passed.agents.trans turned.agents
  others := passed.others.trans turned.others
  replacements := by
    have first : replacementsOf (c :: cs) =
        (c.profile.ref, c.profile.migrated.ref) :: replacementsOf cs := by
      rw [replacementsOf, List.filter_cons_of_pos needs]
      rfl
    rw [first, passed.replacements, turned.replacements, List.reverse_cons, List.append_assoc,
      List.singleton_append]

/-- The models of a list have different ids. -/
def Distinct (cs : List ModelConfig) : Prop := (cs.map ModelConfig.id).Nodup

theorem passed_of_sound (now : String) (distinct : Distinct cs) (sound : st.tables.Sound)
    (rows : ∀ c ∈ cs, st.tables.configs.records.get? c.id = some ⟨c.profile.revision, c⟩) :
    ∃ st', cs.foldlM (migrateModel now) st = .ok st' ∧ Passed now cs st st' ∧ st'.tables.Sound := by
  induction cs generalizing st with
  | nil => exact ⟨st, rfl, .nil, sound⟩
  | cons c cs ih =>
      rw [Distinct, List.map_cons, List.nodup_cons] at distinct
      have apart : ∀ c' ∈ cs, c'.id ≠ c.id := fun c' mem same =>
        distinct.1 (same ▸ List.mem_map_of_mem mem)
      have here : Ready st c := sound.ready (rows c List.mem_cons_self)
      cases needs : c.needs with
      | false =>
          obtain ⟨st', run, passed, sound'⟩ :=
            ih distinct.2 sound fun c' mem => rows c' (List.mem_cons_of_mem _ mem)
          refine ⟨st', ?_, passed.skip here needs apart, sound'⟩
          rw [List.foldlM_cons, migrateModel_settled needs]
          exact run
      | true =>
          obtain ⟨mid, turn, turned⟩ := here.turn needs now
          -- the turn for a model does not touch the rows of the others
          have later : ∀ c' ∈ cs,
              mid.tables.configs.records.get? c'.id = some ⟨c'.profile.revision, c'⟩ := fun c' mem => by
            rw [turned.configs.records, if_neg (apart c' mem)]
            exact rows c' (List.mem_cons_of_mem _ mem)
          obtain ⟨st', run, passed, sound'⟩ := ih distinct.2 (turned.sound needs here sound) later
          refine ⟨st', ?_, passed.cons here needs turned apart, sound'⟩
          rw [List.foldlM_cons, turn]
          exact run

end Loop

/-! ## The default agent -/

section Agent

variable {replacements : List (String × String)}

/-- A value with the new reference, if it is a reference that has one. -/
def renamed (replacements : List (String × String)) : JsonData → JsonData
  | .string ref => .string ((replacements.lookup ref).getD ref)
  | value => value

/-- A value that is no reference with a new one stays. -/
theorem renamed_of_not {value : JsonData}
    (none : ∀ ref, value = .string ref → replacements.lookup ref = none) :
    renamed replacements value = value := by
  cases value with
  | string ref =>
      rw [renamed, none ref rfl]
      rfl
  | null => rfl
  | bool b => rfl
  | int n => rfl
  | float x => rfl
  | array items => rfl
  | object fields => rfl

theorem lookup_cons_of_ne {f key : String} (other : f ≠ key) (value : JsonData) (policy : ModelPolicy) :
    List.lookup f ((key, value) :: policy) = policy.lookup f := by
  rw [List.lookup_cons, beq_false_of_ne other]

theorem lookup_assign (policy : ModelPolicy) (field f : String) (value : JsonData) :
    (policy.map fun entry => if entry.1 = field then (field, value) else entry).lookup f =
      if f = field then (policy.lookup field).map fun _ => value else policy.lookup f := by
  induction policy with
  | nil =>
      split
      · rfl
      · rfl
  | cons entry policy ih =>
      obtain ⟨key, old⟩ := entry
      rw [List.map_cons]
      by_cases here : key = field
      · subst here
        rw [if_pos rfl]
        by_cases same : f = key
        · rw [same, if_pos rfl, List.lookup_cons_self, List.lookup_cons_self]
          rfl
        · rw [if_neg same, lookup_cons_of_ne same, lookup_cons_of_ne same, ih, if_neg same]
      · rw [if_neg here, lookup_cons_of_ne (Ne.symm here)]
        by_cases same : f = key
        · rw [same, if_neg here, List.lookup_cons_self, List.lookup_cons_self]
        · rw [lookup_cons_of_ne same, lookup_cons_of_ne same, ih]

/-- What a turn for a field does to the policy of the agent. -/
structure NewReferences (replacements : List (String × String)) (fields : List String)
    (state state' : ModelPolicy × Bool) : Prop where
  fields : ∀ f, state'.1.lookup f =
    if f ∈ fields then (state.1.lookup f).map (renamed replacements) else state.1.lookup f
  unchanged : state'.2 = false → state' = state

theorem replaceReference_ok (replacements : List (String × String)) {state : ModelPolicy × Bool}
    {field : String} (hashable : (state.1.lookup field).all JsonData.hashable = true) :
    ∃ state', replaceReference replacements state field = .ok state' ∧
      NewReferences replacements [field] state state' := by
  have stays : (state.1.lookup field).map (renamed replacements) = state.1.lookup field →
      NewReferences replacements [field] state state := fun same => by
    refine ⟨fun f => ?_, fun _ => rfl⟩
    by_cases here : f = field
    · rw [here, if_pos (List.mem_singleton_self _), same]
    · rw [if_neg fun mem => here (List.mem_singleton.mp mem)]
  unfold replaceReference
  cases found : state.1.lookup field with
  | none => exact ⟨state, rfl, stays (by rw [found]; rfl)⟩
  | some value =>
      rw [found] at hashable
      cases value with
      | string ref =>
          cases new : replacements.lookup ref with
          | none =>
              refine ⟨state, ?_, stays ?_⟩
              · rw [newReference, new]
                rfl
              · rw [found, Option.map_some, renamed, new]
                rfl
          | some ref' =>
              refine ⟨_, by rw [newReference, new]; rfl, fun f => ?_, fun changed => by cases changed⟩
              rw [lookup_assign]
              by_cases here : f = field
              · rw [if_pos here, if_pos (List.mem_singleton.mpr here), here, found, Option.map_some,
                  Option.map_some, renamed, new]
                rfl
              · rw [if_neg here, if_neg fun mem => here (List.mem_singleton.mp mem)]
      | array items => cases hashable
      | object fields => cases hashable
      | null => exact ⟨state, rfl, stays (by rw [found]; rfl)⟩
      | bool b => exact ⟨state, rfl, stays (by rw [found]; rfl)⟩
      | int n => exact ⟨state, rfl, stays (by rw [found]; rfl)⟩
      | float x => exact ⟨state, rfl, stays (by rw [found]; rfl)⟩

theorem replaceReferences_ok (replacements : List (String × String)) {fields : List String}
    (distinct : fields.Nodup) (state : ModelPolicy × Bool)
    (hashable : ∀ field ∈ fields, (state.1.lookup field).all JsonData.hashable = true) :
    ∃ state', fields.foldlM (replaceReference replacements) state = .ok state' ∧
      NewReferences replacements fields state state' := by
  induction fields generalizing state with
  | nil => exact ⟨state, rfl, fun f => (if_neg List.not_mem_nil).symm, fun _ => rfl⟩
  | cons field fields ih =>
      rw [List.nodup_cons] at distinct
      obtain ⟨mid, turn, replaced⟩ :=
        replaceReference_ok replacements (hashable field List.mem_cons_self)
      have others : ∀ f ∈ fields, mid.1.lookup f = state.1.lookup f := fun f mem => by
        rw [replaced.fields, if_neg]
        rintro here
        exact distinct.1 (List.mem_singleton.mp here ▸ mem)
      obtain ⟨state', run, rest⟩ := ih distinct.2 mid fun f mem => by
        rw [others f mem]
        exact hashable f (List.mem_cons_of_mem _ mem)
      refine ⟨state', ?_, fun f => ?_, fun unchanged => ?_⟩
      · rw [List.foldlM_cons, turn]
        exact run
      · rw [rest.fields]
        by_cases later : f ∈ fields
        · rw [if_pos later, others f later, if_pos (List.mem_cons_of_mem _ later)]
        · rw [if_neg later, replaced.fields]
          simp only [List.mem_cons, List.not_mem_nil, later, or_false]
      · have same := rest.unchanged unchanged
        exact same.trans (replaced.unchanged (same ▸ unchanged))

/-- What the migration does to the default agent: each reference is replaced by the new one, if there is
one, and nothing else is changed. -/
structure AgentMigrated (replacements : List (String × String)) (agents agents' : Versioned String AgentConfig) :
    Prop where
  default : ∃ agent agent', agents.get "default" = some agent ∧ agents'.get "default" = some agent' ∧
    agent'.others = agent.others ∧ ∀ field, agent'.modelPolicy.lookup field =
      if field ∈ agentReferences then (agent.modelPolicy.lookup field).map (renamed replacements)
      else agent.modelPolicy.lookup field
  elsewhere : ∀ id, id ≠ "default" → agents'.records.get? id = agents.records.get? id
  versions : ∀ key value, agents.versions.get? key = some value → agents'.versions.get? key = some value

/-- A reference stays one. -/
theorem hashable_renamed {value : Option JsonData} (hashable : value.all JsonData.hashable = true) :
    (value.map (renamed replacements)).all JsonData.hashable = true := by
  cases value with
  | none => rfl
  | some value =>
      cases value with
      | array items => cases hashable
      | object fields => cases hashable
      | string ref => rfl
      | null => rfl
      | bool b => rfl
      | int n => rfl
      | float x => rfl

theorem AgentMigrated.nothing {agents : Versioned String AgentConfig} (sound : AgentSound agents) :
    AgentMigrated [] agents agents := by
  obtain ⟨record, row, -⟩ := sound.current
  have found : agents.get "default" = some record.payload := Records.get_eq_some.mpr ⟨record, row, rfl⟩
  refine ⟨⟨record.payload, record.payload, found, found, rfl, fun field => ?_⟩, fun _ _ => rfl,
    fun _ _ h => h⟩
  have same : renamed [] = id := funext fun value => renamed_of_not fun _ _ => rfl
  rw [same, Option.map_id]
  split
  · rfl
  · rfl

theorem migrateAgent_ok {agents : Versioned String AgentConfig} (sound : AgentSound agents)
    (replacements : List (String × String)) : ∃ agents', migrateAgent agents replacements = .ok agents' ∧
      AgentMigrated replacements agents agents' ∧ AgentSound agents' := by
  obtain ⟨record, row, current, free, hashable⟩ := sound.current
  have found : agents.get "default" = some record.payload := Records.get_eq_some.mpr ⟨record, row, rfl⟩
  obtain ⟨⟨policy, changed⟩, run, replaced⟩ := replaceReferences_ok replacements
    (by decide) (record.payload.modelPolicy, false) hashable
  unfold migrateAgent
  rw [found]
  cases changed with
  | false =>
      have same := replaced.unchanged rfl
      refine ⟨agents, ?_, ⟨⟨record.payload, record.payload, found, found, rfl, fun field => ?_⟩,
        fun _ _ => rfl, fun _ _ h => h⟩, sound⟩
      · rw [orThrow, ok_bind, run, ok_bind]
        rfl
      · rw [← replaced.fields, same]
  | true =>
      have expected : agents.records.revision "default" = (some record.payload.revision).getD 0 := by
        rw [Records.revision_of_get row, Option.getD_some, current]
      obtain ⟨agents', written⟩ := Versioned.compareAndSet_of_free expected
        (by rw [Option.getD_some, current]; exact free _ (Nat.lt_succ_self _))
        { record.payload with revision := record.payload.revision + 1, modelPolicy := policy }
      have wrote := Versioned.wrote_of_compareAndSet written
      refine ⟨agents', ?_, ⟨⟨record.payload, _, found, wrote.get, rfl, replaced.fields⟩,
        fun id other => ?_, fun key value h => wrote.keeps_versions h⟩, ?_⟩
      · rw [orThrow, ok_bind, run, ok_bind]
        exact mapError_eq_ok.mpr written
      · rw [wrote.records, if_neg other]
      · refine sound.write wrote rfl fun field mem => ?_
        rw [replaced.fields, if_pos mem]
        exact hashable_renamed (hashable field mem)

end Agent

end MiHarness

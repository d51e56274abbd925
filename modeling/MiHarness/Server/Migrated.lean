import MiHarness.Library.System
import MiHarness.Server.Migration

/-!
# Databases that have been migrated

`model_migration` says what the migration makes of a sound database: the models have their new revisions,
everything that was published or stored is as it was, and the default agent names the new revisions.  There
is nothing to do when it has been done.

`models_sound` says that every database is sound that the service has made: the starts, the two ways to
save a model, and the writers of other records.
-/

namespace MiHarness

open Library

/-! ## What is migrated -/

section Migration

variable {now : String} {s s' : ModelServices} {t : ModelDatabase}

theorem ModelDatabase.Sound.listed (sound : t.Sound) {c : ModelConfig} (mem : c ∈ t.configs.list) :
    t.configs.get c.id = some c := by
  obtain ⟨id, found⟩ := Versioned.mem_list.mp mem
  obtain ⟨record, row, rfl⟩ := Records.get_eq_some.mp found
  rwa [(sound.keyed id record row).1]

theorem ModelDatabase.Sound.distinct (sound : t.Sound) : Distinct t.configs.list := by
  have keys : t.configs.list.map ModelConfig.id =
      (t.configs.records.rows.insertionSort fun a b => a.1 ≤ b.1).map Prod.fst := by
    rw [Versioned.list, List.map_map]
    refine List.map_congr_left fun e mem => ?_
    exact (sound.keyed e.1 e.2 (Table.mem_rows.mp ((List.mem_insertionSort _).mp mem))).1
  rw [Distinct, keys]
  exact ((List.perm_insertionSort _ _).map Prod.fst).nodup_iff.mpr t.configs.records.nodup

theorem ModelDatabase.Sound.rows (sound : t.Sound) {c : ModelConfig} (mem : c ∈ t.configs.list) :
    t.configs.records.get? c.id = some ⟨c.profile.revision, c⟩ := by
  obtain ⟨record, row, same⟩ := Records.get_eq_some.mp (sound.listed mem)
  have revision := (sound.keyed c.id record row).2.2
  rw [same] at revision
  rw [row, revision, ← same]

/-- A model that is listed has a new reference for its own, if it needs it. -/
theorem lookup_replacementsOf {cs : List ModelConfig} {c : ModelConfig} (distinct : Distinct cs)
    (ids : ∀ c ∈ cs, c.profile.profileId = c.id) (mem : c ∈ cs) (needs : c.needs = true) :
    (replacementsOf cs).reverse.lookup c.profile.ref = some c.profile.migrated.ref := by
  refine Table.lookup_of_mem ?_ (List.mem_reverse.mpr ?_)
  · rw [List.map_reverse, List.nodup_reverse, replacementsOf, List.map_map]
    refine List.Nodup.map_on ?_ (List.Nodup.filter _ distinct.of_map)
    intro a ha b hb same
    have memA := (List.mem_filter.mp ha).1
    have memB := (List.mem_filter.mp hb).1
    have refs := (profileRef_inj (same : a.profile.ref = b.profile.ref)).1
    rw [ids a memA, ids b memB] at refs
    exact List.inj_on_of_nodup_map distinct memA memB refs
  · exact List.mem_map.mpr ⟨c, List.mem_filter.mpr ⟨mem, needs⟩, rfl⟩

/-- A value that is no reference of a model that needs the migration stays. -/
theorem renamed_other {cs : List ModelConfig} {value : JsonData}
    (other : ∀ c ∈ cs, c.needs = true → value ≠ .string c.profile.ref) :
    renamed (replacementsOf cs).reverse value = value := by
  refine renamed_of_not fun ref here => Option.eq_none_iff_forall_ne_some.mpr fun new found => ?_
  have row := List.mem_reverse.mp (Table.mem_of_lookup found)
  obtain ⟨c, listed, same⟩ := List.mem_map.mp row
  obtain ⟨mem, needs⟩ := List.mem_filter.mp listed
  cases same
  exact other c mem needs here

/-- What the migration has made of a database. -/
structure MigratedDatabase (now : String) (t t' : ModelDatabase) : Prop where
  /-- Each model has its new revision, if it needs it, and is otherwise as it was. -/
  configs : ∀ id, t'.configs.get id = (t.configs.get id).map ModelConfig.after
  configVersions : ∀ key value, t.configs.versions.get? key = some value →
    t'.configs.versions.get? key = some value
  /-- What has been published and granted stays, and all other records do. -/
  profiles : t.profiles.Keeps t'.profiles
  grants : t.grants.Keeps t'.grants
  others : t'.others = t.others
  published : ∀ id c, t.configs.get id = some c → c.needs = true →
    t'.profiles.get c.after.profile.ref = some c.after.profile
  granted : ∀ id c, t.configs.get id = some c → c.needs = true →
    ∀ g, t.grants.get c.profile.ref = some g →
      t'.grants.get c.after.profile.ref = some (g.copied c.after.profile.ref now)
  /-- The default agent names the new revisions where it named the old ones. -/
  agents : ∃ replacements, AgentMigrated replacements t.agents t'.agents ∧
    (∀ id c, t.configs.get id = some c → c.needs = true →
      renamed replacements (.string c.profile.ref) = .string c.after.profile.ref) ∧
    ∀ value, (∀ id c, t.configs.get id = some c → c.needs = true → value ≠ .string c.profile.ref) →
      renamed replacements value = value

theorem ModelConfig.after_settled (c : ModelConfig) : c.after.needs = false := by
  cases needs : c.needs with
  | false => rw [after_of_settled needs, needs]
  | true =>
      rw [after_of_needs needs]
      exact c.profile.limits.migrated_needs

/-- A model whose limits are current has one of the two tiers, and no limit on its input. -/
theorem ModelConfig.tier_of_settled {c : ModelConfig} (settled : c.needs = false) :
    (c.profile.limits.contextWindow = some defaultModelContextWindow ∨
      c.profile.limits.contextWindow = some extendedModelContextWindow) ∧
      c.profile.limits.inputLimit = none := by
  have current := (Bool.or_eq_false_iff.mp settled).1
  exact ModelLimits.current_iff.mp (by simpa using current)

theorem ModelConfig.after_extended {c : ModelConfig}
    (extended : c.profile.limits.contextWindow = some extendedModelContextWindow) :
    c.after.profile.limits.contextWindow = some extendedModelContextWindow := by
  cases needs : c.needs with
  | false => rw [after_of_settled needs, extended]
  | true =>
      rw [after_of_needs needs]
      exact congrArg some (if_pos extended)

/-- There is nothing to do for models whose limits are current. -/
theorem migrate_settled (settled : ∀ c ∈ s.tables.configs.list, c.needs = false) :
    migrateModelContextDefaults now s = .ok s := by
  have run : ∀ cs : List ModelConfig, (∀ c ∈ cs, c.needs = false) →
      cs.foldlM (migrateModel now) { s with replacements := [] } = .ok { s with replacements := [] } := by
    intro cs all
    induction cs with
    | nil => rfl
    | cons c cs ih =>
        rw [List.foldlM_cons, migrateModel_settled (all c List.mem_cons_self)]
        exact ih fun c' mem => all c' (List.mem_cons_of_mem _ mem)
  rw [migrateModelContextDefaults, run _ settled]
  rfl

theorem MigratedDatabase.of_passed {st : Migrating} {t' : ModelDatabase} {registry : String → Option LimitedProfile}
    (sound : t.Sound)
    (passed : Passed now t.configs.list { tables := t, registry, replacements := [] } st)
    (configs : t'.configs = st.tables.configs) (profiles : t'.profiles = st.tables.profiles)
    (grants : t'.grants = st.tables.grants) (others : t'.others = st.tables.others)
    (agents : AgentMigrated st.replacements t.agents t'.agents) : MigratedDatabase now t t' := by
  have ids : ∀ c ∈ t.configs.list, c.profile.profileId = c.id := fun c mem =>
    (sound.keyed c.id _ (sound.rows mem)).2.1
  have listed : ∀ {id c}, t.configs.get id = some c → c ∈ t.configs.list := fun found =>
    Versioned.mem_list.mpr ⟨_, found⟩
  have made : st.replacements = (replacementsOf t.configs.list).reverse :=
    passed.replacements.trans (List.append_nil _)
  refine ⟨fun id => ?_, ?_, ?_, ?_, others.trans passed.others, ?_, ?_, st.replacements, agents, ?_, ?_⟩
  · rw [configs]
    cases found : t.configs.get id with
    | none =>
        have nowhere : ∀ c ∈ t.configs.list, c.id ≠ id := fun c mem same => by
          have row := sound.listed mem
          rw [same, found] at row
          cases row
        have same := passed.elsewhere id nowhere
        rw [Versioned.get, Records.get, same]
        exact found
    | some c =>
        have row := passed.configs c (listed found)
        obtain ⟨record, at', rfl⟩ := Records.get_eq_some.mp found
        rw [(sound.keyed id record at').1] at row
        exact Records.get_eq_some.mpr ⟨_, row, rfl⟩
  · rw [configs]
    exact passed.versions
  · rw [profiles]
    exact passed.profiles
  · rw [grants]
    exact passed.grants
  · intro id c found needs
    rw [profiles, ModelConfig.after_of_needs needs]
    exact passed.published c (listed found) needs
  · intro id c found needs g grant
    rw [grants, ModelConfig.after_of_needs needs]
    exact passed.granted c (listed found) needs g grant
  · intro id c found needs
    rw [made, renamed, lookup_replacementsOf sound.distinct ids (listed found) needs,
      ModelConfig.after_of_needs needs]
    rfl
  · intro value other
    rw [made]
    refine renamed_other fun c mem needs => ?_
    exact other c.id c (sound.listed mem) needs

theorem migrate_ok (sound : s.tables.Sound) (now : String) : ∃ s',
    migrateModelContextDefaults now s = .ok s' ∧ MigratedDatabase now s.tables s'.tables ∧
      s'.tables.Sound := by
  obtain ⟨st, run, passed, sound'⟩ := @passed_of_sound { s with replacements := [] } _ now
    sound.distinct sound fun c mem => sound.rows mem
  rw [migrateModelContextDefaults, run, ok_bind]
  by_cases none : st.replacements = []
  · rw [if_pos none]
    refine ⟨st.toModelServices, rfl, .of_passed sound passed rfl rfl rfl rfl ?_, sound'⟩
    rw [passed.agents, none]
    exact .nothing sound.agents
  · rw [if_neg none]
    obtain ⟨agents, migrated, changes, agentSound⟩ := migrateAgent_ok sound'.agents st.replacements
    rw [migrated, ok_bind]
    refine ⟨_, rfl, .of_passed sound passed rfl rfl rfl rfl ?_, ?_⟩
    · rw [passed.agents] at changes
      exact changes
    · exact ⟨sound'.toOrdered.congr rfl rfl rfl, agentSound⟩

end Migration

/-! ## The writers -/

/-- `ModelGateway.register`. -/
def registerModel (s : ModelServices) (p : LimitedProfile) : Except MigrationFault ModelServices := do
  require (∀ previous ∈ s.registry p.ref, previous = p)
    (.value "Editing a model profile requires a new revision")
  require (∀ existing ∈ s.tables.profiles.get p.ref, existing = p) (.value "Profile revision already exists")
  let profiles ← (s.tables.profiles.put p.ref p).mapError .harness
  return {
    tables := { s.tables with profiles }
    registry := Function.update s.registry p.ref (some p) }

/-- `save_config` of a model. -/
def saveModel (s : ModelServices) (id : String) (expected : Option Nat) (p : LimitedProfile) :
    Except MigrationFault ModelServices := do
  let p := { p with profileId := id, revision := expected.getD 0 + 1 }
  let s ← registerModel s p
  let configs ← (s.tables.configs.compareAndSet id expected { id, profile := p }).mapError .harness
  return { s with tables := { s.tables with configs } }

/-- The policy with both references set; the order of a dictionary is not stored. -/
def activated (policy : ModelPolicy) (ref : String) : ModelPolicy :=
  ("profile_ref", .string ref) :: ("summary_profile_ref", .string ref) ::
    policy.filter fun entry => entry.1 ∉ agentReferences

/-- The default agent gets the model, if it is to. -/
def activateModel (activate : Bool) (agents : Versioned String AgentConfig) (ref : String) :
    Except MigrationFault (Versioned String AgentConfig) :=
  if activate = false then .ok agents
  else do
    let agent ← orThrow (agents.get "default") .type
    (agents.compareAndSet "default" (some agent.revision)
      { agent with revision := agent.revision + 1, modelPolicy := activated agent.modelPolicy ref }).mapError
      .harness

/-- What `ModelSetupService.save` writes. -/
def publishModel (s : ModelServices) (id : String) (expected : Option Nat) (p : LimitedProfile)
    (grant : ModelGrant) (activate : Bool) : Except MigrationFault ModelServices := do
  let p := { p with profileId := id, revision := expected.getD 0 + 1 }
  let configs ← (s.tables.configs.compareAndSet id expected { id, profile := p }).mapError .harness
  let profiles ← (s.tables.profiles.compareAndSet p.ref none p).mapError .harness
  let grants ← (s.tables.grants.put p.ref { grant with profileRef := p.ref }).mapError .harness
  let agents ← activateModel activate s.tables.agents p.ref
  return {
    tables := { s.tables with configs, profiles, grants, agents }
    registry := Function.update s.registry p.ref (some p) }

/-- `demo_profile`. -/
def demoProfile (others : Json) : LimitedProfile where
  profileId := "demo"
  limits := {
    outputLimit := some defaultModelOutputLimit
    sourceRef := some "app:default-model-context-window-300k-v2" }
  others

/-- The demo model and the default agent, as a first start makes them. -/
structure ModelDefaults where
  demo : Json
  agent : Json

/-- The model that is there when there is no other. -/
def ModelDefaults.addDemo (defaults : ModelDefaults) (s : ModelServices) :
    Except MigrationFault ModelServices :=
  if (s.tables.configs.get "demo").isSome = true then .ok s
  else do
    let s ← registerModel s (demoProfile defaults.demo)
    let configs ← (s.tables.configs.put "demo"
      { id := "demo", profile := demoProfile defaults.demo }).mapError .harness
    return { s with tables := { s.tables with configs } }

def ModelDefaults.addAgent (defaults : ModelDefaults) (s : ModelServices) :
    Except MigrationFault ModelServices :=
  if (s.tables.agents.get "default").isSome = true then .ok s
  else do
    let agents ← (s.tables.agents.put "default" { others := defaults.agent }).mapError .harness
    return { s with tables := { s.tables with agents } }

/-- `_initialize_defaults`. -/
def ModelDefaults.initializeDefaults (defaults : ModelDefaults) (now : String) (s : ModelServices) :
    Except MigrationFault ModelServices := do
  let s ← defaults.addDemo s
  let s ← defaults.addAgent s
  migrateModelContextDefaults now s

/-- A transaction that writes to these tables. -/
inductive ModelAction where
  | start (now : String)
  | save (id : String) (expected : Option Nat) (p : LimitedProfile)
  | publish (id : String) (expected : Option Nat) (p : LimitedProfile) (grant : ModelGrant)
      (activate : Bool)
  /-- A plugin puts an agent of its own, or takes it away. -/
  | putAgent (id : String) (agent : AgentConfig)
  | deleteAgent (id : String)
  /-- Any writes to the other namespaces. -/
  | others (others : Versioned (String × String) Json)

/-- A plugin does not overwrite the default agent. -/
def ModelDefaults.perform (defaults : ModelDefaults) (s : ModelServices) :
    ModelAction → Except MigrationFault ModelServices
  | .start now => defaults.initializeDefaults now s
  | .save id expected p => saveModel s id expected p
  | .publish id expected p grant activate => publishModel s id expected p grant activate
  | .putAgent id agent => do
      require (id ≠ "default") (.value "plugin cannot overwrite another owner: config/agents/default")
      let agents ← (s.tables.agents.put id agent).mapError .harness
      return { s with tables := { s.tables with agents } }
  | .deleteAgent id => do
      require (id ≠ "default") (.value "plugin cannot overwrite another owner: config/agents/default")
      return { s with tables := { s.tables with agents := s.tables.agents.delete id } }
  | .others others => .ok { s with tables := { s.tables with others } }

/-- A transaction that raises is rolled back. -/
def ModelDefaults.after (defaults : ModelDefaults) (s : ModelServices) (a : ModelAction) : ModelServices :=
  match defaults.perform s a with
  | .ok s' => s'
  | .error _ => s

/-- The service, from its first start on. -/
def ModelDefaults.service (defaults : ModelDefaults) : System ModelServices ModelAction :=
  .ofNext (fun s => ∃ now, defaults.initializeDefaults now {} = .ok s) fun s a => some (defaults.after s a)

section Writers

variable {defaults : ModelDefaults} {s s' : ModelServices} {p : LimitedProfile} {id : String}
  {expected : Option Nat}

theorem registerModel_wrote (h : registerModel s p = .ok s') :
    ∃ n profiles, s.tables.profiles.Wrote p.ref n p profiles ∧
      s'.tables = { s.tables with profiles } := by
  obtain ⟨-, -, h⟩ := bind_eq_ok.mp h
  obtain ⟨-, -, h⟩ := bind_eq_ok.mp h
  obtain ⟨profiles, put, h⟩ := bind_eq_ok.mp h
  cases h
  exact ⟨_, profiles, Versioned.wrote_of_put (mapError_eq_ok.mp put), rfl⟩

theorem saveModel_sound (sound : s.tables.Sound) (h : saveModel s id expected p = .ok s') :
    s'.tables.Sound := by
  obtain ⟨mid, registered, h⟩ := bind_eq_ok.mp h
  obtain ⟨configs, written, h⟩ := bind_eq_ok.mp h
  cases h
  obtain ⟨n, profiles, wrote, tables⟩ := registerModel_wrote registered
  have configsWrote := Versioned.wrote_of_compareAndSet (mapError_eq_ok.mp written)
  rw [tables] at configsWrote ⊢
  refine ⟨sound.publish configsWrote rfl rfl rfl (fun ref other absent => ?_) (fun _ _ absent => absent),
    sound.agents⟩
  exact absent.other wrote other

theorem activateModel_sound {activate : Bool} {agents agents' : Versioned String AgentConfig}
    {ref : String} (sound : AgentSound agents) (h : activateModel activate agents ref = .ok agents') :
    AgentSound agents' := by
  unfold activateModel at h
  split at h
  case isTrue =>
    cases h
    exact sound
  case isFalse =>
    obtain ⟨agent, found, written⟩ := bind_eq_ok.mp h
    refine sound.write (Versioned.wrote_of_compareAndSet (mapError_eq_ok.mp written)) rfl
      fun field mem => ?_
    rcases List.mem_cons.mp mem with rfl | mem
    · rfl
    · cases List.mem_singleton.mp mem
      rfl

theorem publishModel_sound {grant : ModelGrant} {activate : Bool} (sound : s.tables.Sound)
    (h : publishModel s id expected p grant activate = .ok s') : s'.tables.Sound := by
  obtain ⟨configs, configsWritten, h⟩ := bind_eq_ok.mp h
  obtain ⟨profiles, profilesWritten, h⟩ := bind_eq_ok.mp h
  obtain ⟨grants, grantsWritten, h⟩ := bind_eq_ok.mp h
  obtain ⟨agents, activated, h⟩ := bind_eq_ok.mp h
  cases h
  have configsWrote := Versioned.wrote_of_compareAndSet (mapError_eq_ok.mp configsWritten)
  have profilesWrote := Versioned.wrote_of_compareAndSet (mapError_eq_ok.mp profilesWritten)
  have grantsWrote := Versioned.wrote_of_put (mapError_eq_ok.mp grantsWritten)
  refine ⟨sound.publish configsWrote rfl rfl rfl (fun ref other absent => ?_)
    (fun ref other absent => ?_), ?_⟩
  · exact absent.other profilesWrote other
  · exact absent.other grantsWrote other
  · exact activateModel_sound sound.agents activated

theorem ModelDefaults.addDemo_ordered (ordered : s.tables.Ordered) (h : defaults.addDemo s = .ok s') :
    s'.tables.Ordered ∧ s'.tables.agents = s.tables.agents := by
  rw [addDemo] at h
  split at h
  case isTrue =>
    cases h
    exact ⟨ordered, rfl⟩
  case isFalse new =>
    obtain ⟨mid, registered, h⟩ := bind_eq_ok.mp h
    obtain ⟨configs, written, h⟩ := bind_eq_ok.mp h
    cases h
    obtain ⟨n, profiles, wrote, tables⟩ := registerModel_wrote registered
    have configsWrote := Versioned.wrote_of_put (mapError_eq_ok.mp written)
    rw [tables] at configsWrote ⊢
    have first : s.tables.configs.records.revision "demo" = 0 :=
      Records.revision_of_absent (Option.not_isSome_iff_eq_none.mp new)
    rw [first] at configsWrote
    refine ⟨ordered.publish configsWrote rfl rfl rfl (fun ref other absent => ?_)
      (fun _ _ absent => absent), rfl⟩
    exact absent.other wrote other

theorem ModelDefaults.migrate_sound {now : String} (sound : s.tables.Sound)
    (h : migrateModelContextDefaults now s = .ok s') : s'.tables.Sound := by
  obtain ⟨made, run, -, after⟩ := migrate_ok sound now
  cases run.symm.trans h
  exact after

theorem ModelDefaults.initializeDefaults_sound {now : String} (sound : s.tables.Sound)
    (h : defaults.initializeDefaults now s = .ok s') : s'.tables.Sound := by
  obtain ⟨mid, demo, h⟩ := bind_eq_ok.mp h
  obtain ⟨mid', agent, h⟩ := bind_eq_ok.mp h
  obtain ⟨ordered, same⟩ := addDemo_ordered sound.toOrdered demo
  obtain ⟨record, row, -⟩ := sound.agents.current
  have there : (mid.tables.agents.get "default").isSome = true := by
    rw [same, Versioned.get, Records.get, row]
    rfl
  rw [addAgent, if_pos there] at agent
  cases agent
  have kept : mid.tables.Sound := ⟨ordered, same ▸ sound.agents⟩
  exact migrate_sound kept h

/-- The first start makes the default agent. -/
theorem ModelDefaults.first_sound {now : String} (h : defaults.initializeDefaults now {} = .ok s') :
    s'.tables.Sound := by
  obtain ⟨mid, demo, h⟩ := bind_eq_ok.mp h
  obtain ⟨mid', agent, h⟩ := bind_eq_ok.mp h
  have empty : ({} : ModelDatabase).Ordered :=
    ⟨fun _ _ row => (by cases row), fun _ _ _ => rfl, fun _ _ _ => ⟨rfl, fun _ => rfl⟩,
      fun _ _ _ => ⟨rfl, fun _ => rfl⟩⟩
  obtain ⟨ordered, same⟩ := addDemo_ordered empty demo
  have none : ¬(mid.tables.agents.get "default").isSome = true := by
    rw [same]
    exact Bool.false_ne_true
  rw [addAgent, if_neg none] at agent
  obtain ⟨agents, put, agent⟩ := bind_eq_ok.mp agent
  cases agent
  have wrote := Versioned.wrote_of_put (mapError_eq_ok.mp put)
  rw [same] at wrote
  refine migrate_sound (s := { mid with tables := { mid.tables with agents } })
    ⟨ordered.congr rfl rfl rfl, ?_⟩ h
  refine ⟨_, (wrote.records _).trans (if_pos rfl), rfl, fun revision above => ?_, fun field mem => ?_⟩
  · rw [wrote.versions, if_neg fun h => Nat.ne_of_gt above h.2]
    rfl
  · rcases List.mem_cons.mp mem with rfl | mem
    · rfl
    · cases List.mem_singleton.mp mem
      rfl

theorem ModelDefaults.perform_sound {a : ModelAction} (sound : s.tables.Sound)
    (h : defaults.perform s a = .ok s') : s'.tables.Sound := by
  cases a with
  | start now => exact initializeDefaults_sound sound h
  | save id expected p => exact saveModel_sound sound h
  | publish id expected p grant activate => exact publishModel_sound sound h
  | putAgent id agent =>
      obtain ⟨_, other, h⟩ := bind_eq_ok.mp h
      obtain ⟨agents, put, h⟩ := bind_eq_ok.mp h
      cases h
      have wrote := Versioned.wrote_of_put (mapError_eq_ok.mp put)
      have different := (require_eq_ok.mp other).symm
      obtain ⟨record, row, revision, free, hashable⟩ := sound.agents.current
      refine ⟨sound.toOrdered.congr rfl rfl rfl, record, ?_, revision,
        fun revision' above => ?_, hashable⟩
      · rw [wrote.records, if_neg different, row]
      · rw [wrote.versions, if_neg fun h => different h.1]
        exact free revision' above
  | deleteAgent id =>
      obtain ⟨_, other, h⟩ := bind_eq_ok.mp h
      cases h
      obtain ⟨record, row, revision, free, hashable⟩ := sound.agents.current
      refine ⟨sound.toOrdered.congr rfl rfl rfl, record, ?_, revision, free,
        hashable⟩
      have kept := Table.get?_erase s.tables.agents.records id "default"
      rw [if_neg (require_eq_ok.mp other).symm] at kept
      exact kept.trans row
  | others others =>
      cases h
      exact ⟨sound.toOrdered.congr rfl rfl rfl, sound.agents⟩

/-- Every database that the service has made is sound: so the migration of a start succeeds. -/
theorem models_sound (reachable : defaults.service.Reachable s) : s.tables.Sound := by
  refine reachable.invariant (I := fun s => s.tables.Sound) (fun s start => ?_)
    fun s a s' _ sound step => ?_
  · obtain ⟨now, first⟩ := start
    exact ModelDefaults.first_sound first
  · cases step
    unfold ModelDefaults.after
    split
    · exact ModelDefaults.perform_sound sound ‹_›
    · exact sound

end Writers

/-! ## The migration -/

/-- The migration of a database that the writers have kept sound succeeds: what has been published,
granted and stored otherwise stays, each model gets its new revision, and the default agent names it.
Then every model has one of the two tiers and no limit on its input, and one that had the extended tier has
it still.  To migrate again, whenever, changes nothing. -/
theorem model_migration {s : ModelServices} (sound : s.tables.Sound) (now : String) :
    ∃ s', migrateModelContextDefaults now s = .ok s' ∧ MigratedDatabase now s.tables s'.tables ∧
      (∀ id c, s'.tables.configs.get id = some c →
        (c.profile.limits.contextWindow = some 300000 ∨ c.profile.limits.contextWindow = some 1000000) ∧
          c.profile.limits.inputLimit = none) ∧
      (∀ id c, s.tables.configs.get id = some c → c.profile.limits.contextWindow = some 1000000 →
        ∃ c', s'.tables.configs.get id = some c' ∧ c'.profile.limits.contextWindow = some 1000000) ∧
      ∀ later, migrateModelContextDefaults later s' = .ok s' := by
  obtain ⟨s', run, migrated, -⟩ := migrate_ok sound now
  have settled : ∀ id c, s'.tables.configs.get id = some c → c.needs = false := by
    intro id c found
    rw [migrated.configs] at found
    obtain ⟨c₀, -, rfl⟩ := Option.map_eq_some_iff.mp found
    exact c₀.after_settled
  refine ⟨s', run, migrated, fun id c found => ModelConfig.tier_of_settled (settled id c found),
    fun id c found extended => ?_, fun later => migrate_settled fun c mem => ?_⟩
  · refine ⟨c.after, ?_, ModelConfig.after_extended extended⟩
    rw [migrated.configs, found, Option.map_some]
  · obtain ⟨id, found⟩ := Versioned.mem_list.mp mem
    exact settled id c found

namespace Sample

def modelDefaults : ModelDefaults := { demo := "demo", agent := "agent" }

def legacyModel : LimitedProfile where
  profileId := "demo"
  limits := { contextWindow := some 32768, inputLimit := some 30000, outputLimit := some 4096 }
  others := "legacy"

def legacyGrant : ModelGrant where
  profileRef := ""
  source := "setup"
  createdAt := "monday"
  others := "grant"

/-- A model from before the tiers, which the default agent uses. -/
def legacyModels : Option ModelServices :=
  (modelDefaults.initializeDefaults "monday" {}).toOption.map fun s =>
    modelDefaults.after s (.publish "demo" (some 1) legacyModel legacyGrant true)

def usedModel (s : ModelServices) : Option String :=
  match (s.tables.agents.get "default").bind (·.modelPolicy.lookup "profile_ref") with
  | some (.string ref) => some ref
  | _ => none

theorem legacy_migrated : legacyModels.any (fun s =>
    usedModel s = some "demo@2" &&
      (migrateModelContextDefaults "tuesday" s).toOption.any fun s' => usedModel s' = some "demo@3") =
    true := by
  decide

end Sample

theorem model_migration_legacy : ∃ s s', Sample.legacyModels = some s ∧
    migrateModelContextDefaults "tuesday" s = .ok s' ∧ MigratedDatabase "tuesday" s.tables s'.tables ∧
    Sample.usedModel s = some "demo@2" ∧ Sample.usedModel s' = some "demo@3" := by
  obtain ⟨s, made, both⟩ := (Option.any_eq_true ..).mp Sample.legacy_migrated
  obtain ⟨before, after⟩ := Bool.and_eq_true_iff.mp both
  have sound : s.tables.Sound := by
    obtain ⟨first, started, rfl⟩ := Option.map_eq_some_iff.mp made
    have start : Sample.modelDefaults.service.Reachable first :=
      .init ⟨"monday", toOption_eq_some.mp started⟩
    exact models_sound (start.step rfl)
  obtain ⟨s', run, migrated, -⟩ := model_migration sound "tuesday"
  rw [run] at after
  exact ⟨s, s', made, run, migrated, of_decide_eq_true before, of_decide_eq_true after⟩

end MiHarness

import MiHarness.Library.Effects
import MiHarness.Mcp.ConfigFile
import MiHarness.Storage.Versions

/-!
# Saving a configuration

`saveConfig` checks a payload by its kind and writes it under the next revision.  A model is also
registered: its profile goes to the database and to the registry of the gateway, which is in memory.
The transaction of the command takes back what a save that raises has written to the database, and
not what it has put into the registry.

`save_config_atomic` says when a save that raises leaves both as they were.
-/

namespace MiHarness

open Library

inductive ModelAdapter where
  | openai | anthropic | ollama | demo
deriving DecidableEq, Repr

/-- A profile; the fields that nothing here reads are as JSON. -/
structure ModelProfile where
  profileId : String
  revision : Nat := 1
  providerId : String
  adapterId : ModelAdapter
  adapterVersion : String := "1"
  endpointRef : String
  credentialRef : Option String := none
  modelId : String
  apiMode : String
  capabilities : Json := "\x7b\x7d"
  limits : Json := "\x7b\x7d"
  tokenEstimator : Json := "\x7b\x7d"
  verificationRef : Option String := none
  continuationRequirements : Json := "\x7b\x7d"
  inputPricePerMillion : Option Rat := none
  outputPricePerMillion : Option Rat := none
deriving DecidableEq

/-- `ModelProfile.ref`. -/
def ModelProfile.ref (p : ModelProfile) : String := p.profileId ++ "@" ++ toString p.revision

inductive ConfigCode where
  | agentReadonly | mcpFileRequired | configSchema | configKind
deriving DecidableEq, Repr

inductive ConfigFault where
  | config (code : ConfigCode) (message : String) (status : Nat)
  /-- What the store raises. -/
  | harness (error : HarnessError)
  /-- What `assert_secret_refs` raises. -/
  | secret (fault : McpFileFault)
  /-- `immutable_profile`. -/
  | immutableProfile (message : String)
  /-- A validation error, a missing field, or an error of the file system. -/
  | other
deriving DecidableEq

/-- What the service has of pydantic and of the file system. -/
structure ConfigHost extends McpFileHost where
  /-- `ModelProfile.model_validate`. -/
  validateModel : List (String × JsonData) → Option ModelProfile
  /-- `model_dump(mode="json")`. -/
  dumpModel : ModelProfile → List (String × JsonData)
  /-- `Path(root).resolve(strict=True)`. -/
  resolveRoot : JsonData → Option String
  isDir : String → Bool

/-- The database and `ModelGateway.profiles`. -/
structure ConfigWorld where
  database : RecordStore Json := {}
  profiles : String → Option ModelProfile := fun _ => none

abbrev Saving (α : Type) := EStateM ConfigFault ConfigWorld α

/-- A write of the store. -/
def storeConfig (x : RecordStore Json → Except HarnessError (RecordStore Json)) : Saving Unit :=
  fun w => match x w.database with
    | .ok database => .ok () { w with database }
    | .error e => .error (.harness e) w

variable (host : ConfigHost)

def ConfigHost.dumped (p : ModelProfile) : Json := canonicalJson (.object (host.dumpModel p))

def modelKey (ref : String) : RecordKey := ⟨"model_profiles", ref⟩

def configKey (kind identity : String) : RecordKey := ⟨"config/" ++ kind, identity⟩

/-- `ModelGateway.register`. -/
def ConfigHost.register (p : ModelProfile) : Saving Unit := do
  let w ← get
  ensure (∀ previous ∈ w.profiles p.ref, previous = p)
    (.immutableProfile "Editing a model profile requires a new revision")
  ensure (∀ existing ∈ w.database.get (modelKey p.ref), existing = host.dumped p)
    (.immutableProfile "Profile revision already exists")
  storeConfig fun database => database.put (modelKey p.ref) (host.dumped p)
  modify fun w => { w with profiles := Function.update w.profiles p.ref (some p) }

def setField (fields : List (String × JsonData)) (key : String) (value : JsonData) :
    List (String × JsonData) :=
  fields.filter (·.1 ≠ key) ++ [(key, value)]

def defaultPolicyFields : List (String × JsonData) := [
  ("revision", .int 1), ("egress", .string "cloud_allowed"), ("domains", .array []),
  ("capabilities", .array (["file_read", "file_write", "process", "network", "input", "artifact",
    "delegate", "memory", "skills", "mcp"].map .string)),
  ("approval_effects", .array (["workspace_write", "process", "external_write"].map .string)),
  ("trusted_local_execution", .bool true)]

/-- No field has another name. -/
def onlyFields (names : List String) (fields : List (String × JsonData)) : Prop :=
  ∀ f ∈ fields, f.1 ∈ names

instance (names : List String) (fields : List (String × JsonData)) :
    Decidable (onlyFields names fields) := inferInstanceAs (Decidable (∀ _ ∈ _, _))

/-- `data["egress"] in {..}`; a value that has no hash is a `TypeError`. -/
def validEgress : Option JsonData → Except ConfigFault Bool
  | some (.string s) => .ok (s ∈ ["cloud_allowed", "local_only", "domain_allowlist"])
  | some (.array _) | some (.object _) | none => .error .other
  | some _ => .ok false

def schemaFault (message : String) : ConfigFault := .config .configSchema message 422

/-- What a model, a source of skills or a policy is stored as. -/
def ConfigHost.configData (kind identity : String) (data : List (String × JsonData)) :
    Saving (List (String × JsonData)) := do
  if kind = "models" then
    let some profile := host.validateModel (setField data "profile_id" (.string identity))
      | throw .other
    host.register profile
    return ("id", .string identity) :: host.dumpModel profile
  else if kind = "skill_sources" then
    ensure (onlyFields ["revision", "root", "scope", "trusted", "enabled"] data)
      (schemaFault "Skill 来源字段无效")
    let some root := (data.lookup "root").bind host.resolveRoot | throw .other
    ensure (host.isDir root = true) (schemaFault "Skill 来源必须是目录")
    return setField (setField data "id" (.string identity)) "root" (.string root)
  else if kind = "policies" then
    ensure (onlyFields ("id" :: defaultPolicyFields.map Prod.fst) data) (schemaFault "权限策略字段无效")
    let data := data.foldl (fun policy f => setField policy f.1 f.2) defaultPolicyFields
    match validEgress (data.lookup "egress") with
    | .ok true => return setField data "id" (.string identity)
    | .ok false => throw (schemaFault "出站策略无效")
    | .error e => throw e
  else throw (.config .configKind "不支持的配置种类" 422)

/-- `Services.save_config`.  `body` is the payload without `expected_revision`. -/
def ConfigHost.saveConfig (kind identity : String) (body : List (String × JsonData))
    (expected : Option Nat) : Saving Json := do
  ensure (kind ≠ "agents")
    (.config .agentReadonly "Mi Harness 为受控助手，不允许编辑 Agent" 403)
  ensure (kind ≠ "mcp") (.config .mcpFileRequired "请通过 MCP JSON 文件接口修改配置" 409)
  let data := body.filter (·.1 ≠ "id")
  match host.toMcpFileHost.assertSecretRefs (.object data) with
  | .error fault => throw (.secret fault)
  | .ok _ =>
    let revision := expected.getD 0 + 1
    let data ← host.configData kind identity (setField data "revision" (.int revision))
    let value := canonicalJson (.object data)
    storeConfig fun database => database.compareAndSet (configKey kind identity) expected value
    return value

/-- The transaction of the command: what a save that raises has written is rolled back. -/
def ConfigHost.saveCommand (kind identity : String) (body : List (String × JsonData))
    (expected : Option Nat) : Saving Json := fun w =>
  match host.saveConfig kind identity body expected w with
  | .ok value w' => .ok value w'
  | .error e w' => .error e { w' with database := w.database }

/-! ## The store -/

/-- The write of a key is refused: its revision is another one, or the version is there already. -/
def RecordStore.Refuses (s : RecordStore Json) (k : RecordKey) (expected : Option Nat) : Prop :=
  s.records.revision k ≠ expected.getD 0 ∨ s.versions.get? (k, expected.getD 0 + 1) ≠ none

section Store

variable {w : ConfigWorld} {k : RecordKey} {expected : Option Nat} {value : Json}
  {Q : Unit → ConfigWorld → Prop} {E : ConfigFault → ConfigWorld → Prop}

/-- A write that is not refused is made, and one that is refused changes nothing. -/
theorem wp_storeConfig (versioned : k.versioned)
    (refused : ∀ e, w.database.Refuses k expected → E e w)
    (written : ∀ database, ¬w.database.Refuses k expected →
      w.database.compareAndSet k expected value = .ok database → Q () { w with database }) :
    wp (storeConfig fun database => database.compareAndSet k expected value) Q E w := by
  unfold wp storeConfig
  dsimp only
  cases h : w.database.compareAndSet k expected value with
  | ok database =>
      obtain ⟨current, absent, _⟩ := (RecordStore.compareAndSet_eq_ok versioned).mp h
      refine written database ?_ h
      rintro (other | present)
      · exact other current
      · exact present absent
  | error e =>
      refine refused (.harness e) ?_
      by_contra accepted
      unfold RecordStore.Refuses at accepted
      push Not at accepted
      obtain ⟨versions, inserted⟩ := Table.insert?_of_fresh value accepted.2
      have made := (RecordStore.compareAndSet_eq_ok versioned).mpr
        ⟨accepted.1, accepted.2, versions, inserted, rfl⟩
      cases h.symm.trans made

/-- A write of another key refuses no more and no less. -/
theorem RecordStore.Refuses.congr {s s' : RecordStore Json} {k' : RecordKey} {expected' : Option Nat}
    (h : s.compareAndSet k' expected' value = .ok s') (other : k ≠ k') :
    s'.Refuses k expected ↔ s.Refuses k expected := by
  obtain ⟨records, versions⟩ := RecordStore.compareAndSet_changes h
  have kept : s'.records.revision k = s.records.revision k := by
    rw [Records.revision, Records.revision, records, if_neg other]
  rw [RecordStore.Refuses, RecordStore.Refuses, kept, versions, if_neg fun h => other h.1]

end Store

/-! ## Registering -/

theorem modelKey_versioned (ref : String) : (modelKey ref).versioned := by
  unfold RecordKey.versioned
  simp [modelKey, unversioned]

theorem configKey_versioned (kind identity : String) : (configKey kind identity).versioned := by
  intro member
  have starts : ∀ name ∈ unversioned, ['c'].isPrefixOf name.toList = false := by decide
  have other := starts _ member
  rw [configKey, String.toList_append] at other
  cases other

theorem configKey_ne_modelKey (identity ref : String) :
    configKey "models" identity ≠ modelKey ref := by
  intro same
  have names : "config/" ++ "models" = "model_profiles" := congrArg RecordKey.namespaceName same
  exact absurd names (by decide)

/-- What makes the gateway accept a profile. -/
structure ConfigHost.Accepts (w : ConfigWorld) (p : ModelProfile) : Prop where
  registered : ∀ previous ∈ w.profiles p.ref, previous = p
  stored : ∀ existing ∈ w.database.get (modelKey p.ref), existing = host.dumped p
  free : ¬w.database.Refuses (modelKey p.ref) (some (w.database.records.revision (modelKey p.ref)))

/-- A profile that is accepted is written and registered, and one that is not changes nothing. -/
theorem ConfigHost.register_spec (w : ConfigWorld) (p : ModelProfile) :
    wp (host.register p)
      (fun _ w' => host.Accepts w p ∧ w'.profiles = Function.update w.profiles p.ref (some p) ∧
        ∀ k expected, k ≠ modelKey p.ref →
          (w'.database.Refuses k expected ↔ w.database.Refuses k expected))
      (fun _ w' => ¬host.Accepts w p ∧ w' = w) w := by
  unfold ConfigHost.register
  rw [wp_bind, wp_get]
  refine wp_ensure_bind (fun differs => ⟨fun accepts => differs accepts.registered, rfl⟩) ?_
  intro registered
  refine wp_ensure_bind (fun differs => ⟨fun accepts => differs accepts.stored, rfl⟩) ?_
  intro stored
  rw [wp_bind]
  refine wp_storeConfig (modelKey_versioned _) ?_ ?_
  · exact fun e refuses => ⟨fun accepts => accepts.free refuses, rfl⟩
  · intro database free written
    rw [wp_modify]
    exact ⟨⟨registered, stored, free⟩, rfl, fun k expected other =>
      RecordStore.Refuses.congr written other⟩

/-! ## Saving -/

/-- A save whose profile is put into the registry for the first time, and whose record is then
refused. -/
structure ConfigHost.Leaks (w : ConfigWorld) (kind identity : String)
    (body : List (String × JsonData)) (expected : Option Nat) : Prop where
  model : kind = "models"
  secret : host.toMcpFileHost.assertSecretRefs (.object (body.filter (·.1 ≠ "id"))) = .ok ()
  registers : ∃ profile, host.validateModel (setField (setField (body.filter (·.1 ≠ "id")) "revision"
      (.int (expected.getD 0 + 1 : ℕ))) "profile_id" (.string identity)) = some profile ∧
    host.Accepts w profile ∧ w.profiles profile.ref = none
  refuses : w.database.Refuses (configKey kind identity) expected

section Save

variable {w : ConfigWorld} {kind identity : String} {body : List (String × JsonData)}
  {expected : Option Nat}

/-- What another kind is stored as leaves the registry and the database alone. -/
theorem ConfigHost.configData_other (other : kind ≠ "models") (data : List (String × JsonData)) :
    Moves Eq (host.configData kind identity data) := by
  have refl : ∀ w : ConfigWorld, w = w := fun _ => rfl
  have trans : ∀ {s t u : ConfigWorld}, s = t → t = u → s = u := Eq.trans
  unfold ConfigHost.configData
  rw [if_neg other]
  refine Moves.ite ?_ (Moves.ite ?_ (Moves.throw refl _))
  · refine Moves.bind (R := Eq) trans (Moves.ensure refl _ _) fun _ => ?_
    cases (data.lookup "root").bind host.resolveRoot with
    | none => exact Moves.throw refl _
    | some root => exact Moves.bind (R := Eq) trans (Moves.ensure refl _ _) fun _ => Moves.pure refl _
  · refine Moves.bind (R := Eq) trans (Moves.ensure refl _ _) fun _ => ?_
    dsimp only
    cases validEgress _ with
    | error e => exact Moves.throw refl _
    | ok valid =>
        cases valid with
        | true => exact Moves.pure refl _
        | false => exact Moves.throw refl _

theorem ConfigHost.saveConfig_spec :
    wp (host.saveConfig kind identity body expected)
      (fun _ _ => ¬host.Leaks w kind identity body expected)
      (fun _ w' => w'.profiles = w.profiles ↔ ¬host.Leaks w kind identity body expected) w := by
  have same : ∀ {w' : ConfigWorld}, w' = w → ¬host.Leaks w kind identity body expected →
      (w'.profiles = w.profiles ↔ ¬host.Leaks w kind identity body expected) := by
    rintro _ rfl safe
    exact iff_of_true rfl safe
  unfold ConfigHost.saveConfig
  refine wp_ensure_bind (fun agents => same rfl fun leaks => agents (leaks.model ▸ by decide)) ?_
  intro _
  refine wp_ensure_bind (fun mcp => same rfl fun leaks => mcp (leaks.model ▸ by decide)) ?_
  intro _
  dsimp only
  cases secret : host.toMcpFileHost.assertSecretRefs (.object (body.filter (·.1 ≠ "id"))) with
  | error fault =>
      refine same rfl fun leaks => ?_
      cases secret.symm.trans leaks.secret
  | ok _ =>
      dsimp only
      rw [wp_bind]
      by_cases model : kind = "models"
      · subst model
        unfold ConfigHost.configData
        rw [if_pos rfl]
        cases valid : host.validateModel (setField (setField (body.filter (·.1 ≠ "id")) "revision"
            (.int (expected.getD 0 + 1 : ℕ))) "profile_id" (.string identity)) with
        | none =>
            refine same rfl fun leaks => ?_
            obtain ⟨_, found, _⟩ := leaks.registers
            cases valid.symm.trans found
        | some profile =>
            dsimp only
            rw [wp_bind]
            refine (host.register_spec w profile).mono ?_ ?_
            · rintro _ w' ⟨accepts, registered, elsewhere⟩
              rw [wp_pure, wp_bind]
              have refuses : w'.database.Refuses (configKey "models" identity) expected ↔
                  w.database.Refuses (configKey "models" identity) expected :=
                elsewhere _ _ (configKey_ne_modelKey identity profile.ref)
              refine wp_storeConfig (configKey_versioned _ _) ?_ ?_
              · intro e refused
                rw [registered]
                constructor
                · rintro unchanged leaks
                  obtain ⟨p, found, _, new⟩ := leaks.registers
                  cases valid.symm.trans found
                  have here := congrFun unchanged profile.ref
                  rw [Function.update_self, new] at here
                  cases here
                · intro safe
                  cases known : w.profiles profile.ref with
                  | none =>
                      exact absurd ⟨rfl, secret, ⟨profile, valid, accepts, known⟩,
                        refuses.mp refused⟩ safe
                  | some previous =>
                      have same := accepts.registered previous known
                      subst same
                      rw [← known, Function.update_eq_self]
              · intro database free _ leaks
                exact free (refuses.mpr leaks.refuses)
            · rintro _ w' ⟨refuses, rfl⟩
              refine same rfl fun leaks => ?_
              obtain ⟨p, found, accepts, _⟩ := leaks.registers
              cases valid.symm.trans found
              exact refuses accepts
      · refine (host.configData_other model _ w).mono ?_ ?_
        · rintro data w' rfl
          rw [wp_bind]
          have safe : ¬host.Leaks w kind identity body expected := fun leaks => model leaks.model
          exact wp_storeConfig (configKey_versioned _ _) (fun _ _ => same rfl safe) fun _ _ _ => safe
        · rintro _ w' moved
          exact same moved.symm fun leaks => model leaks.model

end Save

/-- A save that raises leaves the database and the registry as they were, if and only if it does not
put a profile into the registry whose record is then refused. -/
theorem save_config_atomic (host : ConfigHost) (w : ConfigWorld) (kind identity : String)
    (body : List (String × JsonData)) (expected : Option Nat) :
    (∀ e w', host.saveCommand kind identity body expected w = .error e w' →
      w'.database = w.database ∧ w'.profiles = w.profiles) ↔
    ¬host.Leaks w kind identity body expected := by
  have spec : wp (host.saveConfig kind identity body expected) _ _ w := host.saveConfig_spec
  unfold wp at spec
  unfold ConfigHost.saveCommand
  cases saved : host.saveConfig kind identity body expected w with
  | ok value w' =>
      rw [saved] at spec
      exact iff_of_true (fun _ _ h => nomatch h) spec
  | error e w' =>
      rw [saved] at spec
      constructor
      · intro atomic
        exact spec.mp (atomic e _ rfl).2
      · rintro safe _ _ h
        cases h
        exact ⟨rfl, spec.mpr safe⟩

namespace Sample

/-- A host that reads the revision and the model of a profile. -/
def modelHost : ConfigHost where
  digest text := String.ofList text
  loads _ := .error .number
  distinct _ _ h := nomatch h
  secretKey _ := false
  urlsplit _ := none
  fields _ _ := none
  validateModel data :=
    match data.lookup "profile_id", data.lookup "revision", data.lookup "model_id" with
    | some (.string profileId), some (.int revision), some (.string modelId) => some {
        profileId, revision := revision.toNat, providerId := "p", adapterId := .openai
        endpointRef := "https://p.example/v1", modelId, apiMode := "chat" }
    | _, _, _ => none
  dumpModel p := [("profile_id", .string p.profileId), ("revision", .int p.revision),
    ("model_id", .string p.modelId)]
  resolveRoot _ := none
  isDir _ := false

def modelBody (modelId : String) : List (String × JsonData) := [("model_id", .string modelId)]

/-- Saves of the model `m`, each with the revision that it expects. -/
def savingModels (saves : List (String × Option Nat)) (w : ConfigWorld) : ConfigWorld :=
  saves.foldl (fun w save =>
    match modelHost.saveCommand "models" "m" (modelBody save.1) save.2 w with
    | .ok _ w' | .error _ w' => w') w

/-- Whether the model can be saved. -/
def savesModel (save : String × Option Nat) (w : ConfigWorld) : Bool :=
  match modelHost.saveCommand "models" "m" (modelBody save.1) save.2 w with
  | .ok _ _ => true
  | .error _ _ => false

end Sample

/-- A save with a stale revision raises, and its profile stays in the registry. -/
theorem save_config_leaks : ¬∀ (host : ConfigHost) (w : ConfigWorld) (kind identity : String)
    (body : List (String × JsonData)) (expected : Option Nat) (e : ConfigFault) (w' : ConfigWorld),
    host.saveCommand kind identity body expected w = .error e w' →
      w'.database = w.database ∧ w'.profiles = w.profiles := by
  intro atomic
  have refused : Sample.savesModel ("d", some 2) (Sample.savingModels [("a", none)] {}) = false := by
    decide +kernel
  have before : ((Sample.savingModels [("a", none)] {}).profiles "m@3").isSome = false := by
    decide +kernel
  have after : ((Sample.savingModels [("d", some 2)]
      (Sample.savingModels [("a", none)] {})).profiles "m@3").isSome = true := by
    decide +kernel
  generalize Sample.savingModels [("a", none)] {} = w at refused before after
  unfold Sample.savesModel at refused
  unfold Sample.savingModels at after
  rw [List.foldl_cons, List.foldl_nil] at after
  cases saved : Sample.modelHost.saveCommand "models" "m" (Sample.modelBody "d") (some 2) w with
  | ok value w' =>
      rw [saved] at refused
      cases refused
  | error e w' =>
      rw [saved] at after
      have same := (atomic _ _ _ _ _ _ _ _ saved).2
      rw [← same, after] at before
      cases before

/-- The third revision cannot be saved when a stale save has put one into the registry. -/
example : Sample.savesModel ("c", some 2)
      (Sample.savingModels [("a", none), ("b", some 1)] {}) = true ∧
    Sample.savesModel ("c", some 2)
      (Sample.savingModels [("a", none), ("d", some 2), ("b", some 1)] {}) = false := by
  decide

end MiHarness

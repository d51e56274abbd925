import Mathlib.Data.String.Basic
import MiHarness.Library.Dependency
import MiHarness.Library.System
import MiHarness.Storage.Versioned

/-!
# The plugin registry

Plugins are declared by manifests, each of an identifier and a version, which require versions of other
plugins.  A version is loaded when its requirements are met by ready versions; it can then be bound to
runs.  A drained version takes no new runs, and is disposed of when no run and no call uses it any more.
The records of the versions survive the process; the objects, the calls and the names that are taken do
not, and `recover` loads what was ready or draining again, each version after those it requires.

What contributions are registered with is a parameter: `ExtensionPort` is what the registry asks of it.
-/

namespace MiHarness

open Library

abbrev PluginId := String
abbrev VersionText := String
/-- The text of a run identifier. -/
abbrev RunText := String
/-- The key of a version of a plugin. -/
abbrev PluginKey := String

/-- `_key`. -/
def pluginKey (id : PluginId) (version : VersionText) : PluginKey := id ++ "@" ++ version

/-- An entry of a category of `contributes`. -/
structure ManifestEntry where
  id : Option String := none
  name : Option String := none
  data : Json := "{}"
deriving DecidableEq, Repr

/-- A manifest.  Neither the pattern of identifiers nor `Version` lets an `@` through. -/
structure PluginManifest where
  id : PluginId
  version : VersionText
  harnessApi : String
  entrypoint : Option String := none
  contributes : List (String × List ManifestEntry) := []
  /-- `requires.plugins`. -/
  requires : List (PluginId × String) := []
  plain : '@' ∉ id.toList ∧ '@' ∉ version.toList := by decide
deriving DecidableEq, Repr

def PluginManifest.key (m : PluginManifest) : PluginKey := pluginKey m.id m.version

inductive PluginStatus where
  | ready | draining | disposed | disposeFailed
deriving DecidableEq, Repr

/-- `status in ("ready", "draining")`. -/
def PluginStatus.live : PluginStatus → Bool
  | .ready | .draining => true
  | .disposed | .disposeFailed => false

/-- A record of `plugins`.  The hash of the canonical text of a manifest stands for the manifest. -/
structure PluginRecord where
  manifest : PluginManifest
  manifestHash : PluginManifest
  status : PluginStatus
  revision : Nat
deriving DecidableEq, Repr

/-- A record of `plugin_run_refs`. -/
structure PluginRef where
  pluginId : PluginId
  version : VersionText
  runId : RunText
  manifestHash : PluginManifest
deriving DecidableEq, Repr

/-- What the registry takes from its host. -/
structure PluginHost (V : Type) where
  /-- `Version`, by its text. -/
  version : VersionText → V
  /-- `SpecifierSet`, by its text, unless it does not parse. -/
  specifier : String → Option (V → Bool)
  harnessApi : V
  /-- The entrypoints that have a factory. -/
  factories : String → Bool

/-- What the registry asks of the registry of extensions. -/
structure ExtensionPort (E : Type) where
  registerAtomic : E → PluginManifest → Except HarnessError E
  unregister : E → PluginId → VersionText → Except HarnessError E
  /-- The names that a failed load had taken are given up; the transaction is rolled back. -/
  forget : E → PluginId → VersionText → E
  /-- What a new process finds. -/
  restart : E → E

/-- What the object of a plugin does without an exception. -/
structure PluginCode where
  builds : Bool := true
  initializes : Bool := true
  registers : Bool := true
  disposes : Bool := true

structure PluginWorld (E : Type) where
  records : Table PluginKey PluginRecord := .empty
  refs : Versioned String PluginRef := {}
  /-- The versions that are loaded, and whether they have an object. -/
  instances : Table PluginKey Bool := .empty
  inflight : PluginKey → Nat := fun _ => 0
  extensions : E

namespace PluginRegistry

variable {V : Type} [LinearOrder V] {E : Type} (h : PluginHost V) (port : ExtensionPort E)

def valueError (message : String) : HarnessError :=
  { code := .valueError, message, status := 500 }

def keyError (message : String) : HarnessError :=
  { code := .keyError, message, status := 500 }

/-- What the plugin's own code raises. -/
def pluginError (message : String) : HarnessError :=
  { code := .runtimeError, message, status := 500 }

/-! ## Records -/

/-- `repository.list("plugins")`, `ORDER BY key`. -/
def list (records : Table PluginKey PluginRecord) : List PluginRecord :=
  (records.rows.insertionSort fun a b => a.1 ≤ b.1).map Prod.snd

/-- The manifests of the records whose status passes a test. -/
def manifests (records : Table PluginKey PluginRecord) (p : PluginStatus → Bool) :
    List PluginManifest :=
  ((list records).filter fun r => p r.status).map PluginRecord.manifest

/-- The manifests of the ready versions. -/
def installed (records : Table PluginKey PluginRecord) : List PluginManifest :=
  manifests records fun status => status = .ready

/-- `_record`. -/
def record (w : PluginWorld E) (id : PluginId) (version : VersionText) :
    Except HarnessError PluginRecord :=
  orThrow (w.records.get? (pluginKey id version)) (keyError "plugin version not registered")

/-- `references`, whether there are any. -/
def referenced (refs : Versioned String PluginRef) (id : PluginId) (version : VersionText) : Bool :=
  refs.records.any fun _ r => r.payload.pluginId = id && r.payload.version = version

/-! ## Dependencies -/

/-- What a requirement admits. -/
def admits (requirement : V → Bool) (id : PluginId) (m : PluginManifest) : Bool :=
  m.id = id && requirement (h.version m.version)

/-- The version that a requirement is resolved against, none where it is an installed one. -/
def choose (installed pending : List PluginManifest) (r : PluginId × String) :
    Except HarnessError (Option PluginManifest) := do
  let requirement ← orThrow (h.specifier r.2) (valueError ("Invalid specifier: '" ++ r.2 ++ "'"))
  if pending.any (fun m => m.id = r.1) = true then do
    let chosen ← orThrow ((pending.filter fun m => admits h requirement r.1 m).argmax
        fun m => h.version m.version)
      (valueError ("plugin dependency version conflict: " ++ r.1))
    .ok (some chosen)
  else do
    require (installed.any (fun m => admits h requirement r.1 m) = true)
      (valueError ("missing plugin dependency: " ++ r.1))
    .ok none

/-- The manifests and how their requirements are resolved. -/
def dependencies (installed pending : List PluginManifest) :
    Dependencies PluginManifest PluginKey (PluginId × String) HarnessError where
  key := PluginManifest.key
  requires := PluginManifest.requires
  choose := choose h installed pending
  cycle := valueError "plugin dependency cycle"
  exhausted := pluginError "maximum recursion depth exceeded"

/-- `resolve_dependencies`. -/
def resolveDependencies (installed manifests : List PluginManifest) :
    Except HarnessError (List PluginManifest) :=
  (dependencies h installed manifests).order manifests

/-! ## Loading -/

/-- The checks that `load` makes before its transaction. -/
def vet (w : PluginWorld E) (m : PluginManifest) : Except HarnessError Unit := do
  let range ← orThrow (h.specifier m.harnessApi)
    (valueError ("Invalid specifier: '" ++ m.harnessApi ++ "'"))
  require (range h.harnessApi = true) (valueError "plugin harness API range is incompatible")
  require (∀ entrypoint ∈ m.entrypoint, h.factories entrypoint = true)
    { code := .permissionError
      message := "plugin entrypoint is not a host built-in factory", status := 500 }
  let _ ← resolveDependencies h (installed w.records) [m]
  .ok ()

/-- What `load` does within its `try`. -/
def install (extensions : E) (code : PluginCode) (m : PluginManifest) : Except HarnessError E := do
  require (m.entrypoint.isSome = true → code.builds = true) (pluginError "factory")
  require (m.entrypoint.isSome = true → code.initializes = true) (pluginError "initialize")
  let extensions ← port.registerAtomic extensions m
  require (m.entrypoint.isSome = true → code.registers = true) (pluginError "register")
  .ok extensions

/-- The record of a version that is loaded. -/
def loadedRecord (previous : Option PluginRecord) (m : PluginManifest) : PluginRecord where
  manifest := m
  manifestHash := m
  status := if previous.map PluginRecord.status = some .draining then .draining else .ready
  revision := (previous.elim 0 PluginRecord.revision) + 1

/-- The world after a load that raised: the records are as before, and an object that could not be
disposed of keeps its handle. -/
def rolledBack (w : PluginWorld E) (code : PluginCode) (m : PluginManifest) : PluginWorld E :=
  { w with
    extensions := port.forget w.extensions m.id m.version
    instances := if m.entrypoint.isSome = true ∧ code.builds = true ∧ code.disposes = false then
        w.instances.put m.key true
      else w.instances }

/-- `load`, with what it returns. -/
def load (w : PluginWorld E) (code : PluginCode) (m : PluginManifest) (rehydrate : Bool := false) :
    Except HarnessError (Option PluginRecord) × PluginWorld E :=
  match vet h w m with
  | .error e => (.error e, w)
  | .ok _ =>
      let previous := w.records.get? m.key
      if rehydrate = true ∧ previous.any (fun r => r.status.live) = false then (.ok previous, w)
      else if previous.any (fun r => r.manifestHash ≠ m) = true then
        (.error (valueError "plugin version is immutable; increment its version"), w)
      else if m.key ∈ w.instances.keys then (.ok previous, w)
      else
        match install port w.extensions code m with
        | .error e => (.error e, rolledBack port w code m)
        | .ok extensions =>
            (.ok (some (loadedRecord previous m)),
              { w with
                records := w.records.put m.key (loadedRecord previous m)
                instances := w.instances.put m.key m.entrypoint.isSome
                extensions })

/-! ## Runs and calls -/

/-- The key of a record of `plugin_run_refs`. -/
def refKey (id : PluginId) (version : VersionText) (run : RunText) : String :=
  pluginKey id version ++ ":" ++ run

def bindRun (w : PluginWorld E) (id : PluginId) (version : VersionText) (run : RunText) :
    Except HarnessError (PluginRef × PluginWorld E) := do
  let r ← record w id version
  match w.refs.get (refKey id version run) with
  | some existing => .ok (existing, w)
  | none => do
      require (r.status = .ready)
        (valueError "plugin version is draining; new run bindings rejected")
      let value : PluginRef := { pluginId := id, version, runId := run, manifestHash := r.manifestHash }
      let refs ← w.refs.put (refKey id version run) value
      .ok (value, { w with refs })

/-- What `HostPluginManager.recover` does for a run that is active and names the version. -/
def restoreRun (w : PluginWorld E) (id : PluginId) (version : VersionText) (run : RunText)
    (manifestHash : PluginManifest) : Except HarnessError (PluginWorld E) :=
  match w.refs.get (refKey id version run) with
  | some _ => .ok w
  | none => do
      let r ← record w id version
      require (r.manifestHash = manifestHash ∧ r.status.live = true)
        (pluginError "active run plugin lock cannot be restored")
      let refs ← w.refs.put (refKey id version run)
        { pluginId := id, version, runId := run, manifestHash }
      .ok { w with refs }

/-- The beginning of `invocation`. -/
def enter (w : PluginWorld E) (id : PluginId) (version : VersionText) (run : RunText) :
    Except HarnessError (PluginWorld E) := do
  let key := pluginKey id version
  require (w.refs.get (refKey id version run)).isSome
    { code := .permissionError, message := "run does not hold this plugin version", status := 500 }
  require (key ∈ w.instances.keys)
    (pluginError "plugin implementation not rehydrated after restart")
  let r ← record w id version
  require (r.status.live = true)
    { code := .permissionError, message := "plugin unavailable", status := 500 }
  .ok { w with inflight := Function.update w.inflight key (w.inflight key + 1) }

/-! ## Disposal -/

/-- What `_dispose_if_unused` does within its `try`. -/
def dispose (w : PluginWorld E) (code : PluginCode) (id : PluginId) (version : VersionText) :
    Except HarnessError E := do
  require (w.instances.get? (pluginKey id version) = some true → code.disposes = true)
    (pluginError "dispose")
  port.unregister w.extensions id version

/-- Whether `_dispose_if_unused` goes on to dispose of a version. -/
def unused (w : PluginWorld E) (r : PluginRecord) (id : PluginId) (version : VersionText) : Bool :=
  r.status = .draining && !referenced w.refs id version && w.inflight (pluginKey id version) = 0

/-- `_dispose_if_unused`. -/
def disposeIfUnused (w : PluginWorld E) (code : PluginCode) (id : PluginId) (version : VersionText) :
    Except HarnessError (PluginRecord × PluginWorld E) := do
  let r ← record w id version
  if unused w r id version = true then
    let key := pluginKey id version
    match dispose port w code id version with
    | .ok extensions =>
        let r := { r with status := .disposed }
        .ok (r, { w with
          extensions, instances := w.instances.erase key, records := w.records.put key r })
    | .error _ =>
        let r := { r with status := .disposeFailed }
        .ok (r, { w with records := w.records.put key r })
  else .ok (r, w)

/-- The end of `invocation`, of a call that is under way. -/
def leave (w : PluginWorld E) (code : PluginCode) (id : PluginId) (version : VersionText) :
    Except HarnessError (PluginWorld E) := do
  let key := pluginKey id version
  require (w.inflight key ≠ 0) (keyError key)
  let (_, w) ← disposeIfUnused port
    { w with inflight := Function.update w.inflight key (w.inflight key - 1) } code id version
  .ok w

def drain (w : PluginWorld E) (code : PluginCode) (id : PluginId) (version : VersionText) :
    Except HarnessError (PluginRecord × PluginWorld E) := do
  let r ← record w id version
  if r.status = .disposed then .ok (r, w) else
    let r := { r with status := .draining, revision := r.revision + 1 }
    disposeIfUnused port { w with records := w.records.put (pluginKey id version) r } code id version

/-- `release_run`, over the references it has listed. -/
def releaseAll (code : PluginKey → PluginCode) (run : RunText) :
    PluginWorld E → List PluginRef → Except HarnessError (PluginWorld E)
  | w, [] => .ok w
  | w, reference :: rest => do
      if reference.runId = run then do
        let key := pluginKey reference.pluginId reference.version
        let (_, w) ← disposeIfUnused port
          { w with refs := w.refs.delete (refKey reference.pluginId reference.version run) }
          (code key) reference.pluginId reference.version
        releaseAll code run w rest
      else releaseAll code run w rest

def releaseRun (w : PluginWorld E) (code : PluginKey → PluginCode) (run : RunText) :
    Except HarnessError (PluginWorld E) :=
  releaseAll port code run w w.refs.list

/-! ## Processes -/

/-- The process ends: only the records stay. -/
def stop (w : PluginWorld E) : PluginWorld E :=
  { w with instances := .empty, inflight := fun _ => 0, extensions := port.restart w.extensions }

/-- The manifests of the versions that are recovered. -/
def live (records : Table PluginKey PluginRecord) : List PluginManifest :=
  manifests records PluginStatus.live

/-- The loads of `recover`, up to the first that raises. -/
def rehydrateAll (code : PluginKey → PluginCode) :
    PluginWorld E → List PluginManifest → Except HarnessError Unit × PluginWorld E
  | w, [] => (.ok (), w)
  | w, m :: rest =>
      match load h port w (code m.key) m true with
      | (.ok _, w) => rehydrateAll code w rest
      | (.error e, w) => (.error e, w)

/-- `recover`. -/
def recover (w : PluginWorld E) (code : PluginKey → PluginCode) :
    Except HarnessError Unit × PluginWorld E :=
  match resolveDependencies h (installed w.records) (live w.records) with
  | .error e => (.error e, w)
  | .ok order => rehydrateAll h port code w order

end PluginRegistry

/-! ## Runs -/

inductive PluginAction where
  | load (code : PluginCode) (m : PluginManifest) (rehydrate : Bool)
  | bindRun (id : PluginId) (version : VersionText) (run : RunText)
  | restoreRun (id : PluginId) (version : VersionText) (run : RunText) (manifestHash : PluginManifest)
  | enter (id : PluginId) (version : VersionText) (run : RunText)
  | leave (code : PluginCode) (id : PluginId) (version : VersionText)
  | drain (code : PluginCode) (id : PluginId) (version : VersionText)
  | releaseRun (code : PluginKey → PluginCode) (run : RunText)
  | stop
  | recover (code : PluginKey → PluginCode)

section

variable {V : Type} [LinearOrder V] {E : Type} (h : PluginHost V) (port : ExtensionPort E)

/-- The world after an action; one that raises is rolled back. -/
def PluginWorld.after (w : PluginWorld E) : PluginAction → PluginWorld E
  | .load code m rehydrate => (PluginRegistry.load h port w code m rehydrate).2
  | .bindRun id version run => ((PluginRegistry.bindRun w id version run).toOption.map Prod.snd).getD w
  | .restoreRun id version run manifestHash =>
      (PluginRegistry.restoreRun w id version run manifestHash).toOption.getD w
  | .enter id version run => (PluginRegistry.enter w id version run).toOption.getD w
  | .leave code id version => (PluginRegistry.leave port w code id version).toOption.getD w
  | .drain code id version => ((PluginRegistry.drain port w code id version).toOption.map Prod.snd).getD w
  | .releaseRun code run => (PluginRegistry.releaseRun port w code run).toOption.getD w
  | .stop => PluginRegistry.stop port w
  | .recover code => (PluginRegistry.recover h port w code).2

/-- The registry under any sequence of calls, with processes that end at any point. -/
def pluginSystem (start : E) : System (PluginWorld E) PluginAction :=
  .ofNext (· = { extensions := start }) fun w a => some (w.after h port a)

end

end MiHarness

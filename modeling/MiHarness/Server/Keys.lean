import Mathlib.Data.List.Basic
import MiHarness.Library.System
import MiHarness.Server.Setup

/-!
# Where keys are sent

A key is entered for the provider and the address of a request.  It is sent to the address while the
request is checked, and afterwards to the endpoint of a profile that names its reference.

Nothing stops `save_config` from giving a model another endpoint, or another provider, with the reference
that it has: the profile that this publishes is one that `resolve_model_credential` finds.  A request that
keeps a key compares normal forms, and what is normal may have a normal form of its own.  `stored_keys` says
that in a run without the two, each key goes where it was entered for, and to its provider.
-/

namespace MiHarness

open Library

/-! ## Runs -/

/-- What a key was entered for. -/
structure EnteredKey where
  profileId : String
  providerId : String
  endpoint : String
  secret : String

/-- A key that has been sent, with its reference if it has one. -/
structure KeySend where
  reference : Option String
  secret : String
  providerId : String
  endpoint : String
deriving DecidableEq, Repr

/-- What each reference was made for. -/
abbrev EnteredKeys := String → Option EnteredKey

structure KeyRequest extends Prepared where
  saving : Bool

/-- The store with the requests under way, and with what has been entered and sent. -/
structure KeyWorld where
  store : SetupStore := {}
  entered : EnteredKeys := fun _ => none
  requests : List KeyRequest := []
  sent : List KeySend := []

inductive KeyAction where
  | prepare (needModel saving : Bool) (body : SetupRequest) (fresh : String) (authorized : Option SetupFault)
  /-- A request sends its key to its address, to check it or to list the models. -/
  | probe (i : Nat)
  | publish (i : Nat) (job : PublishJob)
  | saveConfig (id : String) (expected : Option Nat) (p : SetupProfile)
  | call (ref : String) (denied : Option SetupFault)

variable (host : SetupHost)

/-- What a request sends. -/
def KeyRequest.sends (q : KeyRequest) : List KeySend :=
  (nonempty q.secret).toList.map fun secret =>
    ⟨q.credentialRef, secret, q.profile.providerId, q.profile.endpointRef⟩

/-- A save that puts a key into the vault. -/
def KeyWorld.enter (w : KeyWorld) (q : Prepared) (job : PublishJob) : EnteredKeys :=
  match q.newKey job with
  | some (reference, secret) =>
      if job.vaultFails = true then w.entered
      else Function.update w.entered reference
        (some ⟨q.profile.profileId, q.profile.providerId, q.profile.endpointRef, secret⟩)
  | none => w.entered

def resultState {ε σ α : Type} : EStateM.Result ε σ α → σ
  | .ok _ s => s
  | .error _ s => s

def ModelSend.sends (m : ModelSend) : List KeySend :=
  m.key.toList.map fun key => ⟨some key.1, key.2, m.profile.providerId, m.endpoint⟩

/-- What a call of a model sends. -/
def SetupHost.callSends (s : SetupStore) (ref : String) (denied : Option SetupFault) : List KeySend :=
  (host.resolveModel s ref denied).toOption.toList.flatMap ModelSend.sends

def SetupHost.afterAction (w : KeyWorld) : KeyAction → KeyWorld
  | .prepare needModel saving body fresh authorized =>
      match host.prepare w.store needModel saving body fresh authorized with
      | .ok q => { w with requests := w.requests ++ [{ toPrepared := q, saving }] }
      | .error _ => w
  | .probe i => { w with sent := w.sent ++ (w.requests[i]?).toList.flatMap KeyRequest.sends }
  | .publish i job =>
      match w.requests[i]? with
      | some q =>
          if q.saving = true then
            { w with
              store := resultState (w.store.publish q.toPrepared job)
              entered := w.enter q.toPrepared job
              requests := w.requests.eraseIdx i }
          else w
      | none => w
  | .saveConfig id expected p => { w with store := resultState (w.store.saveConfig id expected p) }
  | .call ref denied => { w with sent := w.sent ++ host.callSends w.store ref denied }

/-- Nothing names the reference. -/
structure KeyWorld.Unused (w : KeyWorld) (reference : String) : Prop where
  entered : w.entered reference = none
  profiles : ∀ ref p, w.store.tables.profiles.get ref = some p → p.credentialRef ≠ some reference
  configs : ∀ id p, w.store.tables.configs.get id = some p → p.credentialRef ≠ some reference
  registry : ∀ ref p, w.store.registry ref = some p → p.credentialRef ≠ some reference

/-- `token_hex` draws hexadecimal digits, and none that have been used. -/
def KeyWorld.Draws (w : KeyWorld) : KeyAction → Prop
  | .publish i job => ':' ∉ job.drawn.toList ∧ ∀ q, w.requests[i]? = some q →
      w.Unused (credentialReference (modelTarget q.profile.profileId) job.drawn)
  | _ => True

/-- A service that has no keys yet. -/
structure KeyWorld.Fresh (w : KeyWorld) : Prop where
  entered : w.entered = fun _ => none
  requests : w.requests = []
  sent : w.sent = []
  vault : w.store.vault = fun _ => none
  keyed : ∀ id p, w.store.tables.configs.get id = some p → p.profileId = id

def SetupHost.keys : System KeyWorld KeyAction where
  init := KeyWorld.Fresh
  step w a w' := w.Draws a ∧ w' = host.afterAction w a

/-! ## Profiles that keep a key where it is -/

/-- A profile of the model that the key was entered for has its endpoint. -/
def SetupHost.Binds (entered : EnteredKeys) (p : SetupProfile) : Prop :=
  ∀ reference key, p.credentialRef = some reference → entered reference = some key →
    p.profileId = key.profileId → host.resolveEndpoint p.endpointRef = .ok key.endpoint

/-- A profile that has the endpoint of its key has the provider. -/
def SetupHost.Provides (entered : EnteredKeys) (p : SetupProfile) : Prop :=
  ∀ reference key, p.credentialRef = some reference → entered reference = some key →
    host.resolveEndpoint p.endpointRef = .ok key.endpoint → p.providerId = key.providerId

/-- The profile has not been published with other fields. -/
def SetupStore.Registers (s : SetupStore) (p : SetupProfile) : Prop :=
  (∀ previous ∈ s.registry p.ref, previous = p) ∧ ∀ existing ∈ s.tables.profiles.get p.ref, existing = p

/-- A request that keeps the key of a model names its endpoint as it is stored, and a configuration that
names a stored key has the endpoint and the provider that it was entered for. -/
def SetupHost.KeepsKeys (w : KeyWorld) : KeyAction → Prop
  | .prepare _ _ body _ _ => nonempty (body.apiKey.map host.strip) = none →
      ∀ id p endpoint normal, nonempty body.profileId = some id → w.store.tables.configs.get id = some p →
        p.credentialRef ≠ none → host.resolveEndpoint p.endpointRef = .ok endpoint →
        host.normalizeBaseUrl endpoint = .ok normal →
        (∃ preset, body.preset = some preset ∧ host.normalizeBaseUrl (body.address preset) = .ok normal) →
        normal = endpoint
  | .saveConfig id expected p => w.store.Registers (p.configured id expected) →
      host.Provides w.entered (p.configured id expected) ∧
        (w.store.tables.configs.records.revision id = expected.getD 0 →
          host.Binds w.entered (p.configured id expected))
  | _ => True

/-! ## What is kept -/

/-- A key that has a reference is sent to what it was entered for. -/
def KeySend.Confined (entered : EnteredKeys) (x : KeySend) : Prop :=
  ∀ reference, x.reference = some reference → ∃ key, entered reference = some key ∧
    x.secret = key.secret ∧ x.providerId = key.providerId ∧ x.endpoint = key.endpoint

/-- A request, with a key of its own or with the one that was entered for its address. -/
structure SetupHost.Requested (entered : EnteredKeys) (q : Prepared) : Prop where
  plain : ':' ∉ q.profile.profileId.toList
  resolves : host.resolveEndpoint q.profile.endpointRef = .ok q.profile.endpointRef
  keeps : ∀ reference, q.credentialRef = some reference → ∃ key, entered reference = some key ∧
    q.secret = some key.secret ∧ q.profile.profileId = key.profileId ∧
    q.profile.providerId = key.providerId ∧ q.profile.endpointRef = key.endpoint

structure SetupHost.KeysSound (w : KeyWorld) : Prop where
  named : ∀ reference key, w.entered reference = some key → ∃ identity, ':' ∉ key.profileId.toList ∧
    ':' ∉ identity.toList ∧ reference = credentialReference (modelTarget key.profileId) identity
  vault : ∀ reference secret, w.store.vault reference = some secret →
    ∃ key, w.entered reference = some key ∧ key.secret = secret
  profiles : ∀ ref p, w.store.tables.profiles.get ref = some p →
    host.Binds w.entered p ∧ host.Provides w.entered p
  configs : ∀ id p, w.store.tables.configs.get id = some p →
    p.profileId = id ∧ host.Binds w.entered p ∧ host.Provides w.entered p
  registry : ∀ ref p, w.store.registry ref = some p → host.Provides w.entered p
  requests : ∀ q ∈ w.requests, host.Requested w.entered q.toPrepared
  sent : ∀ x ∈ w.sent, x.Confined w.entered

variable {host} {w : KeyWorld}

/-! ## References -/

/-- A reference tells the model that it is for. -/
theorem profileId_of_reference {id profileId identity : String} (plain : ':' ∉ profileId.toList)
    (digits : ':' ∉ identity.toList)
    (h : beginsWith (credentialReference (modelTarget id) "")
      (credentialReference (modelTarget profileId) identity) = true) : id = profileId := by
  obtain ⟨rest, same⟩ := List.isPrefixOf_iff_prefix.mp h
  simp only [credentialReference, modelTarget, String.toList_append, List.append_assoc,
    List.append_cancel_left_eq, String.toList_empty, List.nil_append] at same
  have colon : ":".toList = [':'] := rfl
  rw [colon, List.singleton_append, List.singleton_append] at same
  exact String.toList_injective
    ((List.append_cons_inj_of_notMem plain digits).mp same.symm).1.symm

theorem SetupStore.key_eq_ok {s : SetupStore} {reference target secret : String}
    (h : s.key reference target = .ok secret) :
    beginsWith (credentialReference target "") reference = true ∧ s.vault reference = some secret := by
  obtain ⟨_, begins, h⟩ := bind_eq_ok.mp h
  exact ⟨require_eq_ok.mp begins, orThrow_eq_ok.mp h⟩

/-- What the vault gives for a model is a key that was entered for it. -/
theorem SetupHost.KeysSound.key (sound : host.KeysSound w) {reference id secret : String}
    (h : w.store.key reference (modelTarget id) = .ok secret) :
    ∃ key, w.entered reference = some key ∧ key.secret = secret ∧ id = key.profileId := by
  obtain ⟨begins, found⟩ := SetupStore.key_eq_ok h
  obtain ⟨key, entered, same⟩ := sound.vault reference secret found
  obtain ⟨identity, plain, digits, rfl⟩ := sound.named reference key entered
  exact ⟨key, entered, same, profileId_of_reference plain digits begins⟩

theorem plain_of_valid {id : String} (valid : validProfileId id = true) : ':' ∉ id.toList := by
  intro mem
  have each := List.all_eq_true.mp (Bool.and_eq_true_iff.mp valid).2 ':' mem
  exact absurd each (by decide)

/-! ## A new key -/

section Enter

variable {entered : EnteredKeys} {reference : String} {key : EnteredKey} {p : SetupProfile}

/-- What a profile names that does not name the reference was entered before. -/
theorem entered_before {other : String} {key' : EnteredKey} (named : p.credentialRef = some other)
    (unnamed : p.credentialRef ≠ some reference)
    (found : Function.update entered reference (some key) other = some key') :
    entered other = some key' := by
  rwa [Function.update_of_ne] at found
  rintro rfl
  exact unnamed named

theorem SetupHost.Binds.enter (binds : host.Binds entered p) (unnamed : p.credentialRef ≠ some reference) :
    host.Binds (Function.update entered reference (some key)) p := by
  intro other key' named found
  exact binds other key' named (entered_before named unnamed found)

theorem SetupHost.Provides.enter (provides : host.Provides entered p)
    (unnamed : p.credentialRef ≠ some reference) :
    host.Provides (Function.update entered reference (some key)) p := by
  intro other key' named found
  exact provides other key' named (entered_before named unnamed found)

theorem entered_stays {other : String} {key' : EnteredKey} (new : entered reference = none)
    (found : entered other = some key') :
    Function.update entered reference (some key) other = some key' := by
  rw [Function.update_of_ne, found]
  rintro rfl
  cases new.symm.trans found

theorem SetupHost.Requested.enter {q : Prepared} (requested : host.Requested entered q)
    (key : EnteredKey) (new : entered reference = none) :
    host.Requested (Function.update entered reference (some key)) q where
  plain := requested.plain
  resolves := requested.resolves
  keeps other kept := by
    obtain ⟨key', found, rest⟩ := requested.keeps other kept
    exact ⟨key', entered_stays new found, rest⟩

theorem KeySend.Confined.enter {x : KeySend} (confined : x.Confined entered)
    (new : entered reference = none) :
    x.Confined (Function.update entered reference (some key)) := by
  intro other named
  obtain ⟨key', found, rest⟩ := confined other named
  exact ⟨key', entered_stays new found, rest⟩

end Enter

/-- A key is put into the vault under a reference that is new. -/
theorem SetupHost.KeysSound.enter (sound : host.KeysSound w) (key : EnteredKey)
    {reference identity : String} (made : reference = credentialReference (modelTarget key.profileId) identity)
    (plain : ':' ∉ key.profileId.toList) (digits : ':' ∉ identity.toList) (unused : w.Unused reference)
    (vault : String → Option String)
    (put : vault = Function.update w.store.vault reference (some key.secret) ∨ vault = w.store.vault) :
    host.KeysSound { w with
      store := { w.store with vault }
      entered := Function.update w.entered reference (some key) } where
  named other key' found := by
    rcases update_eq_some found with ⟨rfl, new⟩ | ⟨-, old⟩
    · cases new
      exact ⟨identity, plain, digits, made⟩
    · exact sound.named other key' old
  vault other secret found := by
    have old : w.store.vault other = some secret →
        ∃ key', Function.update w.entered reference (some key) other = some key' ∧
          key'.secret = secret := fun found => by
      obtain ⟨key', entered, same⟩ := sound.vault other secret found
      exact ⟨key', entered_stays unused.entered entered, same⟩
    rcases put with rfl | rfl
    · rcases update_eq_some found with ⟨rfl, new⟩ | ⟨-, found⟩
      · cases new
        exact ⟨key, Function.update_self .., rfl⟩
      · exact old found
    · exact old found
  profiles ref p row := by
    obtain ⟨binds, provides⟩ := sound.profiles ref p row
    have unnamed := unused.profiles ref p row
    exact ⟨binds.enter unnamed, provides.enter unnamed⟩
  configs id p row := by
    obtain ⟨keyed, binds, provides⟩ := sound.configs id p row
    have unnamed := unused.configs id p row
    exact ⟨keyed, binds.enter unnamed, provides.enter unnamed⟩
  registry ref p row := (sound.registry ref p row).enter (unused.registry ref p row)
  requests q mem := (sound.requests q mem).enter key unused.entered
  sent x mem := (sound.sent x mem).enter unused.entered

/-! ## Profiles that are written -/

theorem Versioned.Wrote.get_cases {κ α : Type} [DecidableEq κ] {s s' : Versioned κ α} {k k' : κ} {n : Nat}
    {a b : α} (wrote : s.Wrote k n a s') (h : s'.get k' = some b) :
    (k' = k ∧ b = a) ∨ s.get k' = some b := by
  rw [wrote.get_eq] at h
  split at h
  case isTrue same =>
    cases h
    exact .inl ⟨same, rfl⟩
  case isFalse => exact .inr h

section Write

variable {p : SetupProfile} {n : Nat}

theorem SetupHost.KeysSound.register (sound : host.KeysSound w) (provides : host.Provides w.entered p) :
    host.KeysSound { w with
      store := { w.store with registry := Function.update w.store.registry p.ref (some p) } } where
  named := sound.named
  vault := sound.vault
  profiles := sound.profiles
  configs := sound.configs
  registry ref p' row := by
    rcases update_eq_some row with ⟨-, new⟩ | ⟨-, old⟩
    · cases new
      exact provides
    · exact sound.registry ref p' old
  requests := sound.requests
  sent := sound.sent

theorem SetupHost.KeysSound.write (sound : host.KeysSound w) {tables : SetupTables}
    (configs : ∃ n, w.store.tables.configs.Wrote p.profileId n p tables.configs)
    (profiles : ∃ n, w.store.tables.profiles.Wrote p.ref n p tables.profiles)
    (binds : host.Binds w.entered p) (provides : host.Provides w.entered p) :
    host.KeysSound { w with
      store := { w.store with
        tables, registry := Function.update w.store.registry p.ref (some p) } } where
  named := sound.named
  vault := sound.vault
  profiles ref p' row := by
    obtain ⟨n, wrote⟩ := profiles
    rcases wrote.get_cases row with ⟨-, rfl⟩ | row
    · exact ⟨binds, provides⟩
    · exact sound.profiles ref p' row
  configs id p' row := by
    obtain ⟨n, wrote⟩ := configs
    rcases wrote.get_cases row with ⟨rfl, rfl⟩ | row
    · exact ⟨rfl, binds, provides⟩
    · exact sound.configs id p' row
  registry := (sound.register provides).registry
  requests := sound.requests
  sent := sound.sent

theorem SetupHost.KeysSound.fewer (sound : host.KeysSound w) {requests : List KeyRequest}
    (sub : ∀ q ∈ requests, q ∈ w.requests) : host.KeysSound { w with requests } where
  named := sound.named
  vault := sound.vault
  profiles := sound.profiles
  configs := sound.configs
  registry := sound.registry
  requests q mem := sound.requests q (sub q mem)
  sent := sound.sent

theorem SetupHost.KeysSound.sends (sound : host.KeysSound w) {xs : List KeySend}
    (confined : ∀ x ∈ xs, x.Confined w.entered) : host.KeysSound { w with sent := w.sent ++ xs } where
  named := sound.named
  vault := sound.vault
  profiles := sound.profiles
  configs := sound.configs
  registry := sound.registry
  requests := sound.requests
  sent x mem := (List.mem_append.mp mem).elim (sound.sent x) (confined x)

end Write

/-! ## The steps -/

section Steps

variable {q : Prepared} {job : PublishJob} {entered : EnteredKeys}

theorem nonempty_eq_some {text : Option String} {t : String} (h : nonempty text = some t) :
    text = some t := (Option.filter_eq_some_iff.mp h).1

/-- A request that keeps the key of a model has the endpoint and the provider that it was entered for. -/
theorem SetupHost.KeysSound.prepared (sound : host.KeysSound w) {needModel saving : Bool}
    {body : SetupRequest} {fresh : String} {authorized : Option SetupFault}
    (keeps : host.KeepsKeys w (.prepare needModel saving body fresh authorized))
    (h : host.prepare w.store needModel saving body fresh authorized = .ok q) :
    host.Requested w.entered q := by
  obtain ⟨valid, ⟨preset, named, normal⟩, kept⟩ := SetupHost.prepare_eq_ok h
  refine ⟨plain_of_valid valid, SetupHost.resolveEndpoint_normalized normal, fun reference same => ?_⟩
  obtain ⟨untyped, ⟨p, endpoint, row, given, credential, provider, resolved, normal'⟩, secret, held, read⟩ :=
    kept reference same
  obtain ⟨key, found, rfl, identity⟩ := sound.key read
  obtain ⟨keyed, binds, provides⟩ := sound.configs _ p row
  have bound := binds reference key credential found (keyed.trans identity)
  cases resolved.symm.trans bound
  have unchanged := keeps untyped _ p key.endpoint q.profile.endpointRef given row
    (by rw [credential]; exact Option.some_ne_none _) bound normal' ⟨preset, named, normal⟩
  exact ⟨key, found, held, identity, provider ▸ provides reference key credential found bound, unchanged⟩

theorem SetupHost.Requested.sends {r : KeyRequest} (requested : host.Requested entered r.toPrepared) :
    ∀ x ∈ r.sends, x.Confined entered := by
  intro x mem reference named
  obtain ⟨secret, given, rfl⟩ := List.mem_map.mp mem
  obtain ⟨key, found, held, -, provider, endpoint⟩ := requested.keeps reference named
  have typed := nonempty_eq_some (Option.mem_toList.mp given)
  cases typed.symm.trans held
  exact ⟨key, found, rfl, provider, endpoint⟩

theorem boundTo_eq_ok {reference endpoint : String} {ps bound : List SetupProfile}
    (h : host.boundTo reference endpoint ps = .ok bound) : ∀ p ∈ bound, p ∈ ps ∧
      p.credentialRef = some reference ∧ host.resolveEndpoint p.endpointRef = .ok endpoint := by
  induction ps generalizing bound with
  | nil =>
      cases h
      exact fun p mem => absurd mem List.not_mem_nil
  | cons p ps ih =>
      rw [SetupHost.boundTo] at h
      split at h
      case isTrue named =>
        obtain ⟨resolved, found, h⟩ := bind_eq_ok.mp h
        obtain ⟨rest, later, h⟩ := bind_eq_ok.mp h
        intro p' mem
        split at h
        case isTrue same =>
          cases h
          rcases List.mem_cons.mp mem with rfl | mem
          · exact ⟨List.mem_cons_self, named, same ▸ found⟩
          · obtain ⟨listed, both⟩ := ih later p' mem
            exact ⟨List.mem_cons_of_mem _ listed, both⟩
        case isFalse =>
          cases h
          obtain ⟨listed, both⟩ := ih later p' mem
          exact ⟨List.mem_cons_of_mem _ listed, both⟩
      case isFalse =>
        intro p' mem
        obtain ⟨listed, both⟩ := ih h p' mem
        exact ⟨List.mem_cons_of_mem _ listed, both⟩

/-- A call of a model sends a key to what it was entered for, or none. -/
theorem SetupHost.KeysSound.called (sound : host.KeysSound w) {ref : String}
    {denied : Option SetupFault} {m : ModelSend} (h : host.resolveModel w.store ref denied = .ok m) :
    ∀ x ∈ m.sends, x.Confined w.entered := by
  obtain ⟨p, found, h⟩ := bind_eq_ok.mp h
  obtain ⟨_, -, h⟩ := bind_eq_ok.mp h
  obtain ⟨endpoint, resolved, h⟩ := bind_eq_ok.mp h
  intro x mem
  cases named : nonempty p.credentialRef with
  | none =>
      rw [named] at h
      cases h
      exact absurd mem List.not_mem_nil
  | some reference =>
      rw [named] at h
      obtain ⟨secret, credential, h⟩ := bind_eq_ok.mp h
      cases h
      obtain ⟨bound, filtered, read⟩ := bind_eq_ok.mp credential
      cases List.mem_singleton.mp mem
      intro reference' same
      cases same
      cases bound with
      | nil => cases read
      | cons p₀ rest =>
          obtain ⟨listed, named₀, resolved₀⟩ := boundTo_eq_ok filtered p₀ List.mem_cons_self
          obtain ⟨key, entered, rfl, identity⟩ := sound.key read
          obtain ⟨ref₀, row⟩ := Versioned.mem_list.mp listed
          have at₀ := (sound.profiles ref₀ p₀ row).1 reference key named₀ entered identity
          cases resolved₀.symm.trans at₀
          have provides : host.Provides w.entered p := by
            rcases Option.or_eq_some_iff.mp (orThrow_eq_ok.mp found) with row | ⟨-, row⟩
            · exact (sound.profiles _ p row).2
            · exact sound.registry _ p row
          exact ⟨key, entered, rfl, provides reference key (nonempty_eq_some named) entered resolved, rfl⟩

theorem Prepared.newKey_eq_some {reference secret : String} (h : q.newKey job = some (reference, secret)) :
    q.credentialRef = none ∧ reference = credentialReference (modelTarget q.profile.profileId) job.drawn := by
  unfold newKey at h
  split at h
  case h_1 _ new =>
    cases h
    exact ⟨new, rfl⟩
  case h_2 => cases h

/-- What is published has the key that was entered for it. -/
theorem SetupHost.Requested.published (requested : host.Requested entered q) (reference : Option String)
    (made : ∀ r, reference = some r → q.credentialRef = some r ∨ ∃ secret,
      entered r = some ⟨q.profile.profileId, q.profile.providerId, q.profile.endpointRef, secret⟩)
    (report : SetupReport) :
    host.Binds entered (q.verified reference report) ∧ host.Provides entered (q.verified reference report) := by
  have same : ∀ r key, reference = some r → entered r = some key →
      q.profile.endpointRef = key.endpoint ∧ q.profile.providerId = key.providerId := by
    intro r key named found
    rcases made r named with kept | ⟨secret, new⟩
    · obtain ⟨key', found', -, -, provider, endpoint⟩ := requested.keeps r kept
      cases found.symm.trans found'
      exact ⟨endpoint, provider⟩
    · cases found.symm.trans new
      exact ⟨rfl, rfl⟩
  refine ⟨fun r key named found _ => ?_, fun r key named found _ => (same r key named found).2⟩
  rw [← (same r key named found).1]
  exact requested.resolves

theorem SetupHost.KeysSound.published (sound : host.KeysSound w) (requested : host.Requested w.entered q)
    (digits : ':' ∉ job.drawn.toList)
    (unused : w.Unused (credentialReference (modelTarget q.profile.profileId) job.drawn)) :
    host.KeysSound { w with
      store := resultState (w.store.publish q job)
      entered := w.enter q job } := by
  unfold SetupStore.publish KeyWorld.enter
  cases made : q.newKey job with
  | none =>
      rw [if_neg fun h => h.1 rfl]
      dsimp only
      split
      case h_1 tables published =>
        obtain ⟨configs, profiles⟩ := SetupTables.publish_eq_ok published
        obtain ⟨binds, provides⟩ := requested.published (q.credentialRef.or none)
          (fun r named => .inl (by rwa [Option.or_none] at named)) job.report
        exact sound.write configs profiles binds provides
      case h_2 =>
        rw [ite_self]
        exact sound
  | some new =>
      obtain ⟨reference, secret⟩ := new
      obtain ⟨none, rfl⟩ := Prepared.newKey_eq_some made
      dsimp only
      by_cases fails : job.vaultFails = true
      · rw [if_pos ⟨Option.some_ne_none _, fails⟩, if_pos fails]
        exact sound
      · rw [if_neg fun h => fails h.2, if_neg fails]
        let key : EnteredKey :=
          ⟨q.profile.profileId, q.profile.providerId, q.profile.endpointRef, secret⟩
        have entered := sound.enter key rfl requested.plain digits unused
        split
        case h_1 tables published =>
          obtain ⟨configs, profiles⟩ := SetupTables.publish_eq_ok published
          have after := requested.enter key unused.entered
          obtain ⟨binds, provides⟩ := after.published
            (some (credentialReference (modelTarget q.profile.profileId) job.drawn))
            (fun r named => .inr ⟨secret, by cases named; exact Function.update_self ..⟩) job.report
          rw [none] at configs profiles ⊢
          exact (entered _ (.inl rfl)).write configs profiles binds provides
        case h_2 =>
          by_cases deleted : job.deleteFails = true
          · rw [if_pos deleted]
            exact entered _ (.inl rfl)
          · rw [if_neg deleted]
            exact entered _ (.inr rfl)

/-- What `register` refuses is what has been published with other fields. -/
theorem SetupStore.registers {s s' : SetupStore} {p : SetupProfile} (h : s.register p = .ok s') :
    s.Registers p := by
  obtain ⟨_, previous, h⟩ := bind_eq_ok.mp h
  obtain ⟨_, existing, h⟩ := bind_eq_ok.mp h
  exact ⟨require_eq_ok.mp previous, require_eq_ok.mp existing⟩

theorem SetupHost.KeysSound.saved (sound : host.KeysSound w) {id : String} {expected : Option Nat}
    {p : SetupProfile} (keeps : host.KeepsKeys w (.saveConfig id expected p)) :
    host.KeysSound { w with store := resultState (w.store.saveConfig id expected p) } := by
  unfold SetupStore.saveConfig
  split
  case isTrue => exact sound
  case isFalse =>
    split
    case h_1 => exact sound
    case h_2 registered made =>
      obtain ⟨provides, binds⟩ := keeps (SetupStore.registers made)
      obtain ⟨n, profiles, wrote, rfl⟩ := SetupStore.register_eq_ok made
      split
      case h_1 configs written =>
        have config := Versioned.wrote_of_compareAndSet (setupStored_eq_ok written)
        exact @SetupHost.KeysSound.write host w _ sound { w.store.tables with configs, profiles } ⟨_, config⟩ ⟨n, wrote⟩
          (binds config.current) provides
      case h_2 => exact sound.register provides

theorem SetupHost.KeysSound.step (sound : host.KeysSound w) {a : KeyAction} (draws : w.Draws a)
    (keeps : host.KeepsKeys w a) : host.KeysSound (host.afterAction w a) := by
  cases a with
  | prepare needModel saving body fresh authorized =>
      unfold SetupHost.afterAction
      dsimp only
      split
      case h_1 q prepared =>
        have requested := sound.prepared keeps prepared
        refine { sound with requests := fun r mem => ?_ }
        rcases List.mem_append.mp mem with mem | mem
        · exact sound.requests r mem
        · cases List.mem_singleton.mp mem
          exact requested
      case h_2 => exact sound
  | probe i =>
      refine sound.sends fun x mem => ?_
      obtain ⟨r, found, sent⟩ := List.mem_flatMap.mp mem
      have listed := List.mem_of_getElem? (Option.mem_toList.mp found)
      exact (sound.requests r listed).sends x sent
  | publish i job =>
      unfold SetupHost.afterAction
      dsimp only
      split
      case h_1 r found =>
        split
        case isTrue =>
          have listed := List.mem_of_getElem? found
          have published := sound.published (sound.requests r listed) draws.1 (draws.2 r found)
          exact published.fewer fun q mem => List.mem_of_mem_eraseIdx mem
        case isFalse => exact sound
      case h_2 => exact sound
  | saveConfig id expected p => exact sound.saved keeps
  | call ref denied =>
      refine sound.sends fun x mem => ?_
      obtain ⟨m, found, sent⟩ := List.mem_flatMap.mp mem
      exact sound.called (toOption_eq_some.mp (Option.mem_toList.mp found)) x sent

theorem KeyWorld.Fresh.sound (fresh : w.Fresh) : host.KeysSound w := by
  have absent : ∀ reference key, ¬w.entered reference = some key := fun reference key found => by
    rw [fresh.entered] at found
    cases found
  refine ⟨fun r key found => absurd found (absent r key), fun r secret found => ?_,
    fun ref p row => ⟨fun r key _ found => absurd found (absent r key),
      fun r key _ found => absurd found (absent r key)⟩,
    fun id p row => ⟨fresh.keyed id p row, fun r key _ found => absurd found (absent r key),
      fun r key _ found => absurd found (absent r key)⟩,
    fun ref p row r key _ found => absurd found (absent r key), fun q mem => ?_, fun x mem => ?_⟩
  · rw [fresh.vault] at found
    cases found
  · rw [fresh.requests] at mem
    exact absurd mem List.not_mem_nil
  · rw [fresh.sent] at mem
    exact absurd mem List.not_mem_nil

end Steps

/-- In a run whose steps keep the endpoints and providers of stored keys, a key that has a reference has
only been sent to the endpoint, and for the provider, that it was entered for; and so it is with every call
of a model that obtains one. -/
theorem stored_keys (reachable : (host.keys.restrict host.KeepsKeys).Reachable w) :
    (∀ x ∈ w.sent, x.Confined w.entered) ∧
      ∀ ref denied m, host.resolveModel w.store ref denied = .ok m →
        ∀ x ∈ m.sends, x.Confined w.entered := by
  have sound : host.KeysSound w := reachable.invariant (I := host.KeysSound)
    (fun w fresh => KeyWorld.Fresh.sound fresh) fun w a w' _ sound step => by
      obtain ⟨keeps, draws, rfl⟩ := step
      exact sound.step draws keeps
  exact ⟨sound.sent, fun ref denied m called => sound.called called⟩

namespace Sample

def typedKey : KeyAction :=
  .prepare true true
    { providerId := "openai", apiKey := some "key", modelId := some "model", activate := false } "m" none

def draftJob : PublishJob where
  owner := "owner"
  report := { verificationRef := "draft", checks := [] }
  activate := false
  now := "monday"
  drawn := "0f"

def draftReference : String := "credential:model-model-m:0f"

def keyRun (actions : List KeyAction) : KeyWorld := actions.foldl setupHost.afterAction {}

/-- A key is typed in, tried and stored, and the model is called. -/
def draftRun : List KeyAction := [typedKey, .probe 0, .publish 0 draftJob, .call "model-m@1" none]

theorem draft_sent : (keyRun draftRun).sent =
    [⟨none, "key", "openai", "https://api.openai.com/v1"⟩,
      ⟨some draftReference, "key", "openai", "https://api.openai.com/v1"⟩] := by
  decide

theorem fresh_keys : KeyWorld.Fresh {} :=
  ⟨rfl, rfl, rfl, rfl, fun _ _ row => by cases row⟩

/-- The requests of a service without keys do not change that there are none. -/
theorem unused_typed (reference : String) : (keyRun [typedKey, .probe 0]).Unused reference := by
  have same : (setupHost.afterAction {} typedKey).store = {} ∧
      (setupHost.afterAction {} typedKey).entered = fun _ => none := by
    unfold SetupHost.afterAction typedKey
    dsimp only
    split
    · exact ⟨rfl, rfl⟩
    · exact ⟨rfl, rfl⟩
  have store : (keyRun [typedKey, .probe 0]).store = {} := same.1
  have entered : (keyRun [typedKey, .probe 0]).entered = fun _ => none := same.2
  refine ⟨by rw [entered], fun ref p row => ?_, fun id p row => ?_, fun ref p row => ?_⟩
  · rw [store] at row
    cases row
  · rw [store] at row
    cases row
  · rw [store] at row
    cases row

theorem draft_reachable {C : KeyWorld → KeyAction → Prop} (typed : C {} typedKey)
    (others : ∀ w i job, C w (.probe i) ∧ C w (.publish i job)) :
    (setupHost.keys.restrict C).Reachable (keyRun [typedKey, .probe 0, .publish 0 draftJob]) := by
  have first : (setupHost.keys.restrict C).Reachable (keyRun [typedKey]) :=
    .step (.init fresh_keys) ⟨typed, trivial, rfl⟩
  have probed : (setupHost.keys.restrict C).Reachable (keyRun [typedKey, .probe 0]) :=
    first.step ⟨(others _ 0 draftJob).1, trivial, rfl⟩
  exact probed.step ⟨(others _ 0 draftJob).2, ⟨by decide, fun q _ => unused_typed _⟩, rfl⟩

end Sample

theorem stored_keys_draft :
    KeySend.Confined (Sample.keyRun Sample.draftRun).entered
      ⟨some Sample.draftReference, "key", "openai", "https://api.openai.com/v1"⟩ := by
  have published := @Sample.draft_reachable Sample.setupHost.KeepsKeys
    (fun _ id p endpoint normal given => by cases given) fun w i job => ⟨trivial, trivial⟩
  have called : (Sample.setupHost.keys.restrict Sample.setupHost.KeepsKeys).Reachable
      (Sample.keyRun Sample.draftRun) :=
    published.step (a := .call "model-m@1" none) ⟨trivial, trivial, rfl⟩
  refine (stored_keys called).1 _ ?_
  rw [Sample.draft_sent]
  exact List.mem_cons_of_mem _ List.mem_cons_self

namespace Sample

/-- The configuration of the model is saved with another endpoint, and the model is called. -/
def movedRun : List KeyAction := [typedKey, .probe 0, .publish 0 draftJob,
  .saveConfig "model-m" (some 1)
    { profileId := "", providerId := "custom", adapterId := .openai, endpointRef := "https://other.example"
      credentialRef := some draftReference, modelId := "model", apiMode := "chat_completions" },
  .call "model-m@2" none]

theorem moved_sent : ((keyRun movedRun).sent.any fun x => x.reference = some draftReference ∧
      x.endpoint = "https://other.example") = true ∧
    ((keyRun movedRun).entered draftReference).any (·.endpoint = "https://api.openai.com/v1") = true := by
  decide

end Sample

theorem key_moved : ¬∀ host w, (SetupHost.keys host).Reachable w → ∀ x ∈ w.sent, x.Confined w.entered := by
  intro confined
  have published := @Sample.draft_reachable (fun _ _ => True) trivial fun _ _ _ => ⟨trivial, trivial⟩
  have saved := published.of_restrict.step (a := Sample.movedRun[3]) ⟨trivial, rfl⟩
  have called : Sample.setupHost.keys.Reachable (Sample.keyRun Sample.movedRun) :=
    saved.step (a := .call "model-m@2" none) ⟨trivial, rfl⟩
  obtain ⟨sent, entered⟩ := Sample.moved_sent
  obtain ⟨x, mem, moved⟩ := List.any_eq_true.mp sent
  obtain ⟨named, endpoint⟩ := of_decide_eq_true moved
  obtain ⟨key, found, -, -, same⟩ := confined _ _ called x mem Sample.draftReference named
  rw [found, Option.any_some] at entered
  rw [endpoint, of_decide_eq_true entered] at same
  exact absurd same (by decide)

end MiHarness

import Mathlib.Algebra.Order.Ring.Unbundled.Rat
import MiHarness.Library.System
import MiHarness.Server.Setup

/-!
# Verifying a model

`test` and `save` have the model probed by `_verified`.  A report is kept for the time that a verification
holds, under a fingerprint of everything that has been probed, and requests for the same wait for one
probe.  A request waits nowhere else: what it does before it waits, and when it goes on, is a step.

Time passes between the steps.  The probes, and what has been published, are noted in the state.
-/

namespace MiHarness

open Library

/-! ## Reports -/

def setupCapabilities : List String := ["vision", "streaming"]
def setupRequired : List String := ["transport", "text", "tool_calling", "tool_pairing"]
def connectivityRequired : List String := ["transport", "text"]

/-- `verification_ttl`, and how long a report is kept that is not good enough, in seconds. -/
def verificationTtl : Rat := 600
def failedTtl : Rat := 2

/-- What is probed: a profile without the fields that tell where it is stored, with the key and the
options. -/
structure ProbeConfig where
  owner : String
  profile : SetupProfile
  secret : Option String
  connectivity : Bool
deriving DecidableEq

/-- The service with the function of `_fingerprint`. -/
structure VerifyHost (Digest : Type) extends SetupHost where
  fingerprint : ProbeConfig → Digest
  verificationReuse : Bool

/-- A report in `_cache`, with the time at which a request took it from the probe. -/
structure CacheEntry where
  report : SetupReport
  token : String
  expires : Rat
  taken : Rat

/-- A request that has been prepared, with what it has found in the cache. -/
structure SetupJob where
  owner : String
  saving : Bool
  body : SetupRequest
  prepared : Prepared
  started : Rat
  receipt : Option CacheEntry := none

def SetupJob.config (job : SetupJob) : ProbeConfig where
  owner := job.owner
  profile := { job.prepared.profile with profileId := "", revision := 1, credentialRef := none }
  secret := job.prepared.secret
  connectivity := job.body.connectivity

/-! ## Flights -/

inductive FlightState where
  | running
  | reported (report : SetupReport)
  | failed
deriving DecidableEq

/-- A probe that requests wait for. -/
structure Flight where
  config : ProbeConfig
  users : Nat
  state : FlightState := .running

structure Waiting where
  job : SetupJob
  flight : Nat
  /-- It waits for the probe that it has cancelled. -/
  closing : Bool := false

/-- A probe that has come to its end. -/
structure CompletedProbe where
  config : ProbeConfig
  report : SetupReport
  ended : Rat

/-- A profile that a save has published, with the report and the time at which it was taken. -/
structure Publication where
  job : SetupJob
  report : SetupReport
  profile : SetupProfile
  taken : Rat
  moment : Rat

structure VerifyWorld (Digest : Type) where
  store : SetupStore := {}
  cache : Digest → Option CacheEntry := fun _ => none
  /-- `_flights`, by the number of the flight. -/
  current : Digest → Option Nat := fun _ => none
  flights : List Flight := []
  waiting : List Waiting := []
  recent : String → List Rat := fun _ => []
  now : Rat := 0
  probes : List CompletedProbe := []
  published : List Publication := []

/-- What a request finds, and draws, when it goes on. -/
structure SaveMoment where
  now : String
  /-- `secrets.token_hex(16)`, the token of a report, and the reference of the report of a draft. -/
  drawn : String
  token : String
  draft : String
  maintenance : Bool := false
  /-- What `_authorize` raises. -/
  authorized : Option SetupFault := none
  vaultFails : Bool := false
  deleteFails : Bool := false

variable {Digest : Type} [DecidableEq Digest] (host : VerifyHost Digest)

/-! ## Saving -/

/-- What has not passed of what a model can do without. -/
def SetupReport.missing (report : SetupReport) : List String :=
  setupCapabilities.filter fun name => !report.passes name

/-- What `save` requires of a report. -/
def SetupJob.checkReport (job : SetupJob) (report : SetupReport) : Except SetupFault Unit := do
  require (∀ name ∈ setupRequired, report.passes name = true)
    (.setup .modelToolUnavailable "模型未通过文本与多轮工具协议验证，默认模型未修改" 422)
  require (report.missing = [] ∨ nonempty job.body.verificationToken ≠ none ∧
      (∀ name ∈ job.body.acceptUnverifiedCapabilities, name ∈ report.missing) ∧
      ∀ name ∈ report.missing, name ∈ job.body.acceptUnverifiedCapabilities)
    (.setup .modelCapabilitiesIncomplete
      "部分能力未通过验证，原配置未修改。请查看完整检测结果、重试，或明确选择仅启用已验证能力。" 422)

/-- The rest of `save`, which checks the report if the model is to be activated. -/
def SetupJob.save (job : SetupJob) (s : SetupStore) (report : SetupReport) (m : SaveMoment) :
    EStateM.Result SetupFault SetupStore SetupProfile :=
  match if job.body.activate = true then job.checkReport report else .ok () with
  | .error e => .error e s
  | .ok _ =>
      if m.maintenance = true then .error (.setup .maintenance "维护期间暂停模型配置" 503) s
      else match raised m.authorized with
        | .error e => .error e s
        | .ok _ => s.publish job.prepared {
            owner := job.owner
            report := { report with
              acceptedUnverifiedCapabilities := if job.body.activate = true then report.missing else [] }
            activate := job.body.activate
            now := m.now
            drawn := m.drawn
            maintenance := m.maintenance
            vaultFails := m.vaultFails
            deleteFails := m.deleteFails }

/-- A request has its report: a save publishes, or raises, and a test returns. -/
def VerifyWorld.finish (w : VerifyWorld Digest) (job : SetupJob) (report : SetupReport) (taken : Rat)
    (m : SaveMoment) : VerifyWorld Digest :=
  if job.saving = true then
    match job.save w.store report m with
    | .ok profile store =>
        { w with store, published := w.published ++ [⟨job, report, profile, taken, w.now⟩] }
    | .error _ store => { w with store }
  else w

/-! ## Waiting for a probe -/

/-- A request waits for the probe of its configuration, which it starts if there is none. -/
def VerifyHost.join (w : VerifyWorld Digest) (job : SetupJob) : VerifyWorld Digest :=
  match w.current (host.fingerprint job.config) with
  | some f =>
      { w with
        flights := w.flights.modify f fun flight => { flight with users := flight.users + 1 }
        waiting := w.waiting ++ [{ job, flight := f }] }
  | none =>
      { w with
        current := Function.update w.current (host.fingerprint job.config) (some w.flights.length)
        flights := w.flights ++ [{ config := job.config, users := 1 }]
        waiting := w.waiting ++ [{ job, flight := w.flights.length }] }

/-- The reports that have not expired. -/
def VerifyWorld.purge (w : VerifyWorld Digest) : VerifyWorld Digest :=
  { w with cache := fun digest => (w.cache digest).filter (w.now < ·.expires) }

def VerifyWorld.forget (w : VerifyWorld Digest) (digest : Digest) : VerifyWorld Digest :=
  { w with cache := Function.update w.cache digest none }

/-- A request goes on with the report that it has found, or waits for one. -/
def VerifyHost.reuse (w : VerifyWorld Digest) (job : SetupJob) (m : SaveMoment) : VerifyWorld Digest :=
  if host.verificationReuse = true then
    match job.receipt with
    | some entry => w.finish job entry.report entry.taken m
    | none => host.join w job
  else host.join (w.forget (host.fingerprint job.config)) job

/-- `_verified`, up to where it waits. -/
def VerifyHost.verified (w : VerifyWorld Digest) (job : SetupJob) (m : SaveMoment) : VerifyWorld Digest :=
  let w := w.purge
  let job := { job with receipt := w.cache (host.fingerprint job.config) }
  if (nonempty job.body.verificationToken).all (fun token => job.receipt.any (·.token = token)) = true then
    host.reuse w job m
  else w

/-- A request that goes on with a report keeps it, unless another has. -/
def VerifyHost.keep (w : VerifyWorld Digest) (job : SetupJob) (report : SetupReport) (token : String) : VerifyWorld Digest :=
  let digest := host.fingerprint job.config
  match w.cache digest with
  | some _ => w
  | none =>
      let required := if job.body.connectivity = true then connectivityRequired else setupRequired
      let ttl := if required.all report.passes = true then verificationTtl else failedTtl
      { w with cache := Function.update w.cache digest (some ⟨report, token, w.now + ttl, w.now⟩) }

/-- A request that goes on, or is cancelled, leaves its flight, which is forgotten when nobody is left. -/
def VerifyHost.leave (w : VerifyWorld Digest) (x : Waiting) : VerifyWorld Digest :=
  let w := { w with
    flights := w.flights.modify x.flight fun flight => { flight with users := flight.users - 1 } }
  if (w.flights[x.flight]?).all (·.users = 0) = true then
    { w with current := Function.update w.current (host.fingerprint x.job.config) none }
  else w

/-! ## Requests -/

/-- `_admit`, with the requests of the last minute. -/
def VerifyWorld.admitOwner (w : VerifyWorld Digest) (owner : String) (m : SaveMoment) : Except SetupFault (VerifyWorld Digest) := do
  require (m.maintenance = false) (.setup .maintenance "维护期间暂停模型配置" 503)
  let recent := (w.recent owner).dropWhile fun t => 60 ≤ w.now - t
  require (w.waiting.length < 2 ∧ recent.length < 12)
    (.setup .modelSetupRateLimit "模型配置请求过于频繁，请稍后重试" 429)
  return { w with recent := Function.update w.recent owner (recent ++ [w.now]) }

/-- What `save` checks of a request before the model is verified. -/
def SetupJob.check (job : SetupJob) : Except SetupFault Unit := do
  require (¬(job.body.activate = true ∧ job.body.connectivity = true))
    (.setup .modelFullVerificationRequired "快速连接检测不能用于激活，请执行完整验证" 422)
  require (¬(job.body.activate = false ∧ ∃ p ∈ job.prepared.existing, ∃ c ∈ p.capabilities,
      c.2.status = .verified))
    (.setup .modelVerifiedDraft "已验证模型不能被未验证草稿覆盖；请添加独立草稿或完整验证后保存" 422)

/-- A request that has been prepared.  A draft has no report to wait for. -/
def VerifyHost.proceed (w : VerifyWorld Digest) (job : SetupJob) (m : SaveMoment) : VerifyWorld Digest :=
  if job.saving = true then
    match job.check with
    | .error _ => w
    | .ok _ =>
        if job.body.activate = true then host.verified w job m
        else w.finish job { verificationRef := m.draft, checks := [] } w.now m
  else if job.body.refreshVerification = true then
    host.verified (w.forget (host.fingerprint job.config)) job m
  else host.verified w job m

/-- What a request does when its flight has a report. -/
def VerifyHost.goOn (w : VerifyWorld Digest) (x : Waiting) (report : SetupReport) (m : SaveMoment) : VerifyWorld Digest :=
  (host.leave (host.keep w x.job report m.token) x).finish x.job report w.now m

inductive VerifyAction where
  | request (owner : String) (saving : Bool) (body : SetupRequest) (fresh : String)
      (authorized : Option SetupFault) (m : SaveMoment)
  /-- The probe of a flight returns, or raises. -/
  | reports (f : Nat) (report : SetupReport)
  | fails (f : Nat)
  /-- A request goes on when its flight has ended, or is cancelled. -/
  | wake (i : Nat) (m : SaveMoment)
  | cancel (i : Nat)
  | tick (later : Rat)
  /-- Anything that is not a request to set up a model. -/
  | edit (store : SetupStore)

/-- The end of a probe. -/
def VerifyWorld.land (w : VerifyWorld Digest) (f : Nat) (state : FlightState) : VerifyWorld Digest :=
  { w with flights := w.flights.modify f fun flight => { flight with state } }

def VerifyHost.next (w : VerifyWorld Digest) : VerifyAction → VerifyWorld Digest
  | .request owner saving body fresh authorized m =>
      match w.admitOwner owner m with
      | .error _ => w
      | .ok w => match host.prepare w.store true saving body fresh authorized with
          | .error _ => w
          | .ok prepared =>
              host.proceed w { owner, saving, body, prepared, started := w.now } m
  | .reports f report =>
      match w.flights[f]? with
      | some ⟨config, _, .running⟩ =>
          { w.land f (.reported report) with probes := w.probes ++ [⟨config, report, w.now⟩] }
      | _ => w
  | .fails f =>
      match w.flights[f]? with
      | some ⟨_, _, .running⟩ => w.land f .failed
      | _ => w
  | .wake i m =>
      match w.waiting[i]? with
      | some x =>
          if x.closing = true then { w with
            current := Function.update w.current (host.fingerprint x.job.config) none
            waiting := w.waiting.eraseIdx i }
          else match (w.flights[x.flight]?).map Flight.state with
            | some (.reported report) => host.goOn { w with waiting := w.waiting.eraseIdx i } x report m
            | some .failed => host.leave { w with waiting := w.waiting.eraseIdx i } x
            | _ => w
      | none => w
  | .cancel i =>
      match w.waiting[i]? with
      | some x =>
          if x.closing = true then w
          else match (w.flights[x.flight]?).map Flight.state, (w.flights[x.flight]?).map Flight.users with
            | some .running, some 1 =>
                -- the last one waits for the probe to end
                { w with
                  flights := w.flights.modify x.flight fun flight => { flight with users := 0 }
                  waiting := w.waiting.modify i fun x => { x with closing := true } }
            | _, _ => host.leave { w with waiting := w.waiting.eraseIdx i } x
      | none => w
  | .tick later => if w.now ≤ later then { w with now := later } else w
  | .edit store => { w with store }

/-- The service, on any store and with an empty cache. -/
def VerifyHost.setup : System (VerifyWorld Digest) VerifyAction where
  init w := ∃ store now, w = { store, now }
  step w a w' := w' = host.next w a

end MiHarness

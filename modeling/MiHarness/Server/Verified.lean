import MiHarness.Server.Verification

/-!
# What a published verification rests on

`model_setup` says that a model is activated on the report of a probe of its configuration, and without a
capability only on a token that told so.  A draft is published without either, and the age of a report is
counted from when a request took it: the probe may have come to its end before.
-/

namespace MiHarness

open Library

/-! ## Reports and their probes -/

/-- There was a probe of the configuration, with this report, by this time. -/
def Vouched (probes : List CompletedProbe) (config : ProbeConfig) (report : SetupReport) (time : Rat) : Prop :=
  ∃ probe ∈ probes, probe.config = config ∧ probe.report = report ∧ probe.ended ≤ time

structure EntrySound (probes : List CompletedProbe) (time : Rat) (config : ProbeConfig) (e : CacheEntry) :
    Prop where
  vouched : Vouched probes config e.report e.taken
  taken : e.taken ≤ time
  expires : e.expires ≤ e.taken + verificationTtl

/-- What a request has found: the token that it presents is that of a report that has not expired. -/
structure JobSound (probes : List CompletedProbe) (job : SetupJob) : Prop where
  receipt : ∀ e, job.receipt = some e → EntrySound probes job.started job.config e ∧ job.started < e.expires
  token : ∀ token, nonempty job.body.verificationToken = some token →
    ∃ e, job.receipt = some e ∧ e.token = token

/-- What a profile has been published on, if it was to be activated. -/
structure Publication.Backed (probes : List CompletedProbe) (pub : Publication) : Prop where
  profile : ∃ reference report, pub.profile = pub.job.prepared.verified reference report ∧
    report.checks = pub.report.checks
  verified : ∀ c ∈ pub.profile.capabilities, pub.report.passes c.1 = true
  vouched : Vouched probes pub.job.config pub.report pub.taken
  age : pub.taken ≤ pub.moment ∧ pub.moment < pub.taken + verificationTtl
  lacking : (∃ name ∈ setupCapabilities, name ∉ pub.profile.capabilities.map Prod.fst) →
    (∃ token e, nonempty pub.job.body.verificationToken = some token ∧ pub.job.receipt = some e ∧
      e.token = token ∧ pub.job.started < e.expires ∧ Vouched probes pub.job.config e.report e.taken) ∧
    ∀ name, name ∈ pub.job.body.acceptUnverifiedCapabilities ↔
      name ∈ setupCapabilities ∧ name ∉ pub.profile.capabilities.map Prod.fst

section Reports

variable {probes probes' : List CompletedProbe} {config : ProbeConfig} {report : SetupReport}
  {time time' : Rat} {job : SetupJob} {e : CacheEntry} {pub : Publication}

theorem Vouched.mono (vouched : Vouched probes config report time) (more : ∀ p ∈ probes, p ∈ probes')
    (later : time ≤ time') : Vouched probes' config report time' := by
  obtain ⟨probe, mem, same, told, ended⟩ := vouched
  exact ⟨probe, more probe mem, same, told, ended.trans later⟩

theorem EntrySound.mono (sound : EntrySound probes time config e) (more : ∀ p ∈ probes, p ∈ probes')
    (later : time ≤ time') : EntrySound probes' time' config e :=
  ⟨sound.vouched.mono more le_rfl, sound.taken.trans later, sound.expires⟩

theorem JobSound.mono (sound : JobSound probes job) (more : ∀ p ∈ probes, p ∈ probes') :
    JobSound probes' job where
  receipt e found := ⟨(sound.receipt e found).1.mono more le_rfl, (sound.receipt e found).2⟩
  token := sound.token

theorem Publication.Backed.mono (backed : pub.Backed probes) (more : ∀ p ∈ probes, p ∈ probes') :
    pub.Backed probes' where
  profile := backed.profile
  verified := backed.verified
  vouched := backed.vouched.mono more le_rfl
  age := backed.age
  lacking lacks := by
    obtain ⟨⟨token, e, given, found, same, live, vouched⟩, listed⟩ := backed.lacking lacks
    exact ⟨⟨token, e, given, found, same, live, vouched.mono more le_rfl⟩, listed⟩

end Reports

/-! ## Publishing -/

section Publishing

variable {s s' : SetupStore} {q : Prepared} {job : SetupJob} {work : PublishJob} {report : SetupReport}
  {m : SaveMoment} {p : SetupProfile} {f : SetupFault}

theorem SetupStore.publish_ok (h : s.publish q work = .ok p s') :
    ∃ reference, p = q.verified reference work.report := by
  unfold publish at h
  dsimp only at h
  split at h
  case isTrue => cases h
  case isFalse =>
    split at h
    case h_1 =>
      cases h
      exact ⟨_, rfl⟩
    case h_2 => cases h

/-- A save that raises leaves the tables and the registry. -/
theorem SetupStore.publish_error (h : s.publish q work = .error f s') :
    s'.tables = s.tables ∧ s'.registry = s.registry := by
  unfold publish at h
  dsimp only at h
  split at h
  case isTrue =>
    cases h
    exact ⟨rfl, rfl⟩
  case isFalse =>
    split at h
    case h_1 => cases h
    case h_2 =>
      cases h
      exact ⟨rfl, rfl⟩

theorem SetupJob.save_ok (h : job.save s report m = .ok p s') :
    (job.body.activate = true → job.checkReport report = .ok ()) ∧ ∃ reference told,
      p = job.prepared.verified reference told ∧ told.checks = report.checks := by
  unfold save at h
  split at h
  case h_1 => cases h
  case h_2 checked =>
    split at h
    case isTrue => cases h
    case isFalse =>
      split at h
      case h_1 => cases h
      case h_2 =>
        obtain ⟨reference, rfl⟩ := SetupStore.publish_ok h
        refine ⟨fun activate => ?_, reference, _, rfl, rfl⟩
        rwa [if_pos activate] at checked

theorem SetupJob.save_error (h : job.save s report m = .error f s') :
    s'.tables = s.tables ∧ s'.registry = s.registry := by
  unfold save at h
  split at h
  case h_1 =>
    cases h
    exact ⟨rfl, rfl⟩
  case h_2 =>
    split at h
    case isTrue =>
      cases h
      exact ⟨rfl, rfl⟩
    case isFalse =>
      split at h
      case h_1 =>
        cases h
        exact ⟨rfl, rfl⟩
      case h_2 => exact SetupStore.publish_error h

theorem SetupReport.passes_congr {told : SetupReport} (same : told.checks = report.checks) (name : String) :
    told.passes name = report.passes name := by
  rw [passes, passes, same]

/-- The capabilities that are published are those that have passed. -/
theorem Prepared.verified_names (q : Prepared) (reference : Option String) (report : SetupReport) :
    (q.verified reference report).capabilities.map Prod.fst = publishedCapabilities.filter report.passes := by
  rw [verified, List.map_map]
  exact List.map_id _

theorem SetupReport.mem_missing {name : String} :
    name ∈ report.missing ↔ name ∈ setupCapabilities ∧ ¬report.passes name = true := by
  rw [missing, List.mem_filter, Bool.not_eq_true', Bool.not_eq_true]

/-- A capability that can be done without lacks in the profile when it has not passed. -/
theorem Prepared.lacks_iff {reference : Option String} {name : String} :
    name ∈ setupCapabilities ∧ name ∉ (q.verified reference report).capabilities.map Prod.fst ↔
      name ∈ report.missing := by
  rw [SetupReport.mem_missing, Prepared.verified_names, List.mem_filter]
  refine and_congr_right fun mem => ?_
  have published : name ∈ publishedCapabilities := by
    rcases List.mem_cons.mp mem with rfl | mem
    · decide
    · cases List.mem_singleton.mp mem
      decide
  exact not_congr (and_iff_right published)

theorem SetupReport.missing_congr {told : SetupReport} (same : told.checks = report.checks) :
    told.missing = report.missing :=
  List.filter_congr fun name _ => by rw [SetupReport.passes_congr same]

/-- What a save publishes is backed by what it has found, if the report is. -/
theorem SetupJob.save_backed {probes : List CompletedProbe} {taken moment : Rat}
    (h : job.save s report m = .ok p s') (activate : job.body.activate = true)
    (sound : JobSound probes job) (vouched : Vouched probes job.config report taken)
    (age : taken ≤ moment ∧ moment < taken + verificationTtl) :
    (Publication.mk job report p taken moment).Backed probes := by
  obtain ⟨checked, reference, told, rfl, same⟩ := SetupJob.save_ok h
  obtain ⟨_, -, rest⟩ := bind_eq_ok.mp (checked activate)
  have complete := require_eq_ok.mp rest
  have lacks : ∀ {name}, name ∈ setupCapabilities ∧
      name ∉ (job.prepared.verified reference told).capabilities.map Prod.fst ↔ name ∈ report.missing := by
    intro name
    rw [Prepared.lacks_iff, SetupReport.missing_congr same]
  refine ⟨⟨reference, told, rfl, same⟩, fun c mem => ?_, vouched, age, fun lacking => ?_⟩
  · have named := List.mem_map_of_mem (f := Prod.fst) mem
    rw [Prepared.verified_names, List.mem_filter] at named
    rw [← SetupReport.passes_congr same]
    exact named.2
  · obtain ⟨name, mem, absent⟩ := lacking
    rcases complete with none | ⟨given, inside, outside⟩
    · have missing := lacks.mp ⟨mem, absent⟩
      rw [none] at missing
      exact absurd missing List.not_mem_nil
    · obtain ⟨token, given⟩ := Option.ne_none_iff_exists'.mp given
      obtain ⟨e, found, token'⟩ := sound.token token given
      obtain ⟨entry, live⟩ := sound.receipt e found
      refine ⟨⟨token, e, given, found, token', live, entry.vouched⟩, fun name' => ?_⟩
      exact ⟨fun listed => lacks.mpr (inside name' listed), fun lacks' => outside name' (lacks.mp lacks')⟩

end Publishing

/-! ## The state of the service -/

section World

variable {Digest : Type} {host : VerifyHost Digest} {w : VerifyWorld Digest} {job : SetupJob}
  {m : SaveMoment} {report : SetupReport}

/-- An item of a list and another one is in one of them. -/
theorem getElem?_append_cases {α : Type} {l l' : List α} {i : Nat} {a : α}
    (h : (l ++ l')[i]? = some a) : l[i]? = some a ∨ a ∈ l' := by
  rcases Nat.lt_or_ge i l.length with inside | outside
  · exact .inl ((List.getElem?_append_left inside).symm.trans h)
  · rw [List.getElem?_append_right outside] at h
    exact .inr (List.mem_of_getElem? h)

/-- A request that waits, for a probe of what it wants to be probed. -/
structure VerifyHost.WaitsFor (host : VerifyHost Digest) (probes : List CompletedProbe) (flights : List Flight)
    (x : Waiting) : Prop where
  job : JobSound probes x.job
  activates : x.job.saving = true → x.job.body.activate = true
  flight : ∃ flight, flights[x.flight]? = some flight ∧
    host.fingerprint flight.config = host.fingerprint x.job.config

structure VerifyHost.VerifySound (host : VerifyHost Digest) (w : VerifyWorld Digest) : Prop where
  cache : ∀ digest e, w.cache digest = some e → ∃ config, host.fingerprint config = digest ∧
    EntrySound w.probes w.now config e
  flights : ∀ (f : Nat) flight report, w.flights[f]? = some flight → flight.state = .reported report →
    Vouched w.probes flight.config report w.now
  current : ∀ digest f, w.current digest = some f → ∃ flight, w.flights[f]? = some flight ∧
    host.fingerprint flight.config = digest
  waiting : ∀ x ∈ w.waiting, host.WaitsFor w.probes w.flights x
  published : ∀ pub ∈ w.published, pub.job.body.activate = true → pub.Backed w.probes

namespace VerifyHost.VerifySound

/-- Reports may be forgotten. -/
theorem fewer (sound : host.VerifySound w) {cache : Digest → Option CacheEntry}
    (sub : ∀ digest e, cache digest = some e → w.cache digest = some e) :
    host.VerifySound { w with cache } where
  cache digest e found := sound.cache digest e (sub digest e found)
  flights := sound.flights
  current := sound.current
  waiting := sound.waiting
  published := sound.published

theorem purge (sound : host.VerifySound w) : host.VerifySound w.purge :=
  sound.fewer fun _ _ found => (Option.filter_eq_some_iff.mp found).1

/-- Requests may leave, and flights be forgotten. -/
theorem quit (sound : host.VerifySound w) {current : Digest → Option Nat} {waiting : List Waiting}
    (flights : ∀ digest f, current digest = some f → w.current digest = some f)
    (sub : ∀ x ∈ waiting, ∃ x' ∈ w.waiting, x'.job = x.job ∧ x'.flight = x.flight) :
    host.VerifySound { w with current, waiting } where
  cache := sound.cache
  flights := sound.flights
  current digest f found := sound.current digest f (flights digest f found)
  waiting x mem := by
    obtain ⟨x', mem', job, flight⟩ := sub x mem
    obtain ⟨jobSound, activates, found⟩ := sound.waiting x' mem'
    exact ⟨job ▸ jobSound, job ▸ activates, flight ▸ job ▸ found⟩
  published := sound.published

/-- The flights are what they are, whoever waits for them. -/
theorem users (sound : host.VerifySound w) (f : Nat) (g : Nat → Nat) : host.VerifySound { w with
    flights := w.flights.modify f fun flight => { flight with users := g flight.users } } := by
  have found : ∀ {f' : Nat} {flight : Flight}, w.flights[f']? = some flight → ∃ flight',
      (w.flights.modify f fun flight => { flight with users := g flight.users })[f']? = some flight' ∧
        flight'.config = flight.config ∧ flight'.state = flight.state := by
    intro f' flight row
    rw [List.getElem?_modify, row]
    refine ⟨_, rfl, ?_⟩
    split
    · exact ⟨rfl, rfl⟩
    · exact ⟨rfl, rfl⟩
  refine ⟨sound.cache, fun f' flight report row told => ?_, fun digest f' named => ?_, fun x mem => ?_,
    sound.published⟩
  · rw [List.getElem?_modify] at row
    obtain ⟨old, at', rfl⟩ := Option.map_eq_some_iff.mp row
    have kept : (if f = f' then { old with users := g old.users } else old).config = old.config ∧
        (if f = f' then { old with users := g old.users } else old).state = old.state := by
      split
      · exact ⟨rfl, rfl⟩
      · exact ⟨rfl, rfl⟩
    rw [kept.1]
    exact sound.flights f' old report at' (kept.2 ▸ told)
  · obtain ⟨flight, row, same⟩ := sound.current digest f' named
    obtain ⟨flight', row', config, -⟩ := found row
    exact ⟨flight', row', config ▸ same⟩
  · obtain ⟨jobSound, activates, flight, row, same⟩ := sound.waiting x mem
    obtain ⟨flight', row', config, -⟩ := found row
    exact ⟨jobSound, activates, flight', row', config ▸ same⟩

theorem publish (sound : host.VerifySound w) {pub : Publication} {store : SetupStore}
    (backed : pub.job.body.activate = true → pub.Backed w.probes) :
    host.VerifySound { w with store, published := w.published ++ [pub] } where
  cache := sound.cache
  flights := sound.flights
  current := sound.current
  waiting := sound.waiting
  published pub' mem := by
    rcases List.mem_append.mp mem with mem | mem
    · exact sound.published pub' mem
    · cases List.mem_singleton.mp mem
      exact backed

theorem edit (sound : host.VerifySound w) (store : SetupStore) : host.VerifySound { w with store } where
  cache := sound.cache
  flights := sound.flights
  current := sound.current
  waiting := sound.waiting
  published := sound.published

/-- A flight ends with a report of its probe, or with none. -/
theorem land (sound : host.VerifySound w) (f : Nat) {state : FlightState} {probes : List CompletedProbe}
    (more : ∀ p ∈ w.probes, p ∈ probes)
    (told : ∀ flight report, w.flights[f]? = some flight → state = .reported report →
      Vouched probes flight.config report w.now) :
    host.VerifySound { w.land f state with probes } := by
  have found : ∀ {f' : Nat} {flight : Flight}, w.flights[f']? = some flight → ∃ flight',
      (w.land f state).flights[f']? = some flight' ∧ flight'.config = flight.config := by
    intro f' flight row
    rw [VerifyWorld.land, List.getElem?_modify, row]
    refine ⟨_, rfl, ?_⟩
    split
    · rfl
    · rfl
  refine ⟨fun digest e row => ?_, fun f' flight report row reported => ?_, fun digest f' named => ?_,
    fun x mem => ?_, fun pub mem activate => (sound.published pub mem activate).mono more⟩
  · obtain ⟨config, same, entry⟩ := sound.cache digest e row
    exact ⟨config, same, entry.mono more le_rfl⟩
  · rw [VerifyWorld.land, List.getElem?_modify] at row
    obtain ⟨old, at', rfl⟩ := Option.map_eq_some_iff.mp row
    split at reported
    case isTrue here =>
      rw [if_pos here]
      subst here
      exact told old report at' reported
    case isFalse other =>
      rw [if_neg other]
      exact (sound.flights f' old report at' reported).mono more le_rfl
  · obtain ⟨flight, row, same⟩ := sound.current digest f' named
    obtain ⟨flight', row', config⟩ := found row
    exact ⟨flight', row', config ▸ same⟩
  · obtain ⟨jobSound, activates, flight, row, same⟩ := sound.waiting x mem
    obtain ⟨flight', row', config⟩ := found row
    exact ⟨jobSound.mono more, activates, flight', row', config ▸ same⟩

theorem tick (sound : host.VerifySound w) {later : Rat} (forward : w.now ≤ later) :
    host.VerifySound { w with now := later } where
  cache digest e found := by
    obtain ⟨config, same, entry⟩ := sound.cache digest e found
    exact ⟨config, same, entry.mono (fun _ mem => mem) forward⟩
  flights f flight report row told :=
    (sound.flights f flight report row told).mono (fun _ mem => mem) forward
  current := sound.current
  waiting := sound.waiting
  published := sound.published

/-- What is found in the cache, before it has expired, is for the configuration that is looked up. -/
theorem receipt (sound : host.VerifySound w) (injective : Function.Injective host.fingerprint)
    {e : CacheEntry} (found : w.purge.cache (host.fingerprint job.config) = some e) :
    EntrySound w.probes w.now job.config e ∧ w.now < e.expires := by
  obtain ⟨kept, live⟩ := Option.filter_eq_some_iff.mp found
  obtain ⟨config, same, entry⟩ := sound.cache _ e kept
  exact ⟨injective same ▸ entry, of_decide_eq_true live⟩

/-! ## The steps -/

theorem finish (sound : host.VerifySound w) {taken : Rat}
    (backed : ∀ p s', job.saving = true → job.body.activate = true → job.save w.store report m = .ok p s' →
      (Publication.mk job report p taken w.now).Backed w.probes) :
    host.VerifySound (w.finish job report taken m) := by
  unfold VerifyWorld.finish
  split
  case isTrue saving =>
    split
    case h_1 p s' saved => exact sound.publish fun activate => backed p s' saving activate saved
    case h_2 => exact sound.edit _
  case isFalse => exact sound

variable [DecidableEq Digest]

theorem forget (sound : host.VerifySound w) (digest : Digest) : host.VerifySound (w.forget digest) := by
  refine sound.fewer fun digest' e found => ?_
  rcases update_eq_some found with ⟨-, none⟩ | ⟨-, old⟩
  · cases none
  · exact old

theorem forgets {current : Digest → Option Nat} (digest : Digest) :
    ∀ digest' f, Function.update current digest none digest' = some f → current digest' = some f := by
  intro digest' f found
  rcases update_eq_some found with ⟨-, none⟩ | ⟨-, old⟩
  · cases none
  · exact old

theorem join (sound : host.VerifySound w) (jobSound : JobSound w.probes job)
    (activates : job.saving = true → job.body.activate = true) : host.VerifySound (host.join w job) := by
  unfold VerifyHost.join
  split
  case h_1 f named =>
    have joined := sound.users f (· + 1)
    refine { joined with waiting := fun x mem => ?_ }
    rcases List.mem_append.mp mem with mem | mem
    · exact joined.waiting x mem
    · cases List.mem_singleton.mp mem
      exact ⟨jobSound, activates, joined.current _ f named⟩
  case h_2 =>
    have old : ∀ {f : Nat} {flight : Flight}, w.flights[f]? = some flight →
        (w.flights ++ [{ config := job.config, users := 1 }])[f]? = some flight := fun row =>
      (List.getElem?_append_left (List.getElem?_eq_some_iff.mp row).1).trans row
    have new : (w.flights ++ [{ config := job.config, users := 1 }])[w.flights.length]? =
        some { config := job.config, users := 1 } := List.getElem?_concat_length ..
    refine ⟨sound.cache, fun f flight report row told => ?_, fun digest f named => ?_, fun x mem => ?_,
      sound.published⟩
    · rcases getElem?_append_cases row with row | new
      · exact sound.flights f flight report row told
      · cases List.mem_singleton.mp new
        cases told
    · rcases update_eq_some named with ⟨rfl, started⟩ | ⟨-, named⟩
      · cases started
        exact ⟨_, new, rfl⟩
      · obtain ⟨flight, row, same⟩ := sound.current digest f named
        exact ⟨flight, old row, same⟩
    · rcases List.mem_append.mp mem with mem | mem
      · obtain ⟨jobSound, activates, flight, row, same⟩ := sound.waiting x mem
        exact ⟨jobSound, activates, flight, old row, same⟩
      · cases List.mem_singleton.mp mem
        exact ⟨jobSound, activates, _, new, rfl⟩

theorem verified (sound : host.VerifySound w) (injective : Function.Injective host.fingerprint)
    (activates : job.saving = true → job.body.activate = true) (started : job.started = w.now) :
    host.VerifySound (host.verified w job m) := by
  unfold VerifyHost.verified
  dsimp only
  split
  case isFalse => exact sound.purge
  case isTrue tokens =>
    have jobSound : JobSound w.probes
        { job with receipt := w.purge.cache (host.fingerprint job.config) } := by
      refine ⟨fun e found => ?_, fun token given => ?_⟩
      · obtain ⟨entry, live⟩ := sound.receipt injective found
        exact ⟨started ▸ entry, started ▸ live⟩
      · rw [given, Option.all_some] at tokens
        obtain ⟨e, found, same⟩ := (Option.any_eq_true ..).mp tokens
        exact ⟨e, found, of_decide_eq_true same⟩
    unfold VerifyHost.reuse
    split
    case isTrue =>
      split
      case h_1 e found =>
        refine sound.purge.finish fun p s' _ activate saved => ?_
        obtain ⟨entry, live⟩ := sound.receipt injective found
        refine SetupJob.save_backed saved activate jobSound entry.vouched ⟨entry.taken, ?_⟩
        exact lt_of_lt_of_le live entry.expires
      case h_2 => exact sound.purge.join jobSound activates
    case isFalse => exact (sound.purge.forget _).join jobSound activates

theorem ttl_le (good : Bool) : (if good = true then verificationTtl else failedTtl) ≤ verificationTtl := by
  split
  · exact le_rfl
  · decide

theorem keep (sound : host.VerifySound w) (vouched : Vouched w.probes job.config report w.now)
    (token : String) : host.VerifySound (host.keep w job report token) := by
  unfold VerifyHost.keep
  dsimp only
  split
  case h_1 => exact sound
  case h_2 =>
    refine { sound with cache := fun digest e found => ?_ }
    rcases update_eq_some found with ⟨rfl, kept⟩ | ⟨-, found⟩
    · cases kept
      exact ⟨job.config, rfl, vouched, le_rfl, add_le_add_right (ttl_le _) w.now⟩
    · exact sound.cache digest e found

theorem leave (sound : host.VerifySound w) (x : Waiting) : host.VerifySound (host.leave w x) := by
  unfold VerifyHost.leave
  have left := sound.users x.flight (· - 1)
  dsimp only
  split
  case isTrue => exact left.quit (forgets _) fun x' mem => ⟨x', mem, rfl, rfl⟩
  case isFalse => exact left

theorem proceed (sound : host.VerifySound w) (injective : Function.Injective host.fingerprint)
    (started : job.started = w.now) : host.VerifySound (host.proceed w job m) := by
  unfold VerifyHost.proceed
  split
  case isTrue saving =>
    split
    case h_1 => exact sound
    case h_2 =>
      split
      case isTrue activate => exact sound.verified injective (fun _ => activate) started
      case isFalse draft => exact sound.finish fun p s' _ activate => absurd activate draft
  case isFalse test =>
    have activates : job.saving = true → job.body.activate = true := fun saving => absurd saving test
    split
    case isTrue => exact (sound.forget _).verified injective activates started
    case isFalse => exact sound.verified injective activates started

/-- What `finish` is called in is the state after the others, at the same time. -/
theorem goOn (sound : host.VerifySound w) {x : Waiting} (job : JobSound w.probes x.job)
    (vouched : Vouched w.probes x.job.config report w.now) : host.VerifySound (host.goOn w x report m) := by
  have left := (sound.keep vouched m.token).leave x
  have same : (host.leave (host.keep w x.job report m.token) x).probes = w.probes ∧
      (host.leave (host.keep w x.job report m.token) x).now = w.now := by
    have kept : (host.keep w x.job report m.token).probes = w.probes ∧
        (host.keep w x.job report m.token).now = w.now := by
      unfold VerifyHost.keep
      dsimp only
      split
      · exact ⟨rfl, rfl⟩
      · exact ⟨rfl, rfl⟩
    unfold VerifyHost.leave
    dsimp only
    split
    · exact kept
    · exact kept
  refine left.finish fun p s' _ activate saved => ?_
  rw [same.1, same.2]
  refine SetupJob.save_backed saved activate job vouched ⟨le_rfl, ?_⟩
  exact lt_add_of_pos_right _ (by decide)

end VerifyHost.VerifySound

theorem VerifyWorld.admitOwner_eq_ok {owner : String} {w' : VerifyWorld Digest} (h : w.admitOwner owner m = .ok w') :
    ∃ recent, w' = { w with recent } := by
  obtain ⟨_, -, h⟩ := bind_eq_ok.mp h
  obtain ⟨_, -, h⟩ := bind_eq_ok.mp h
  cases h
  exact ⟨_, rfl⟩

/-- A profile has been published, or the tables and the registry are as they were. -/
def VerifyWorld.Calm (w w' : VerifyWorld Digest) : Prop :=
  (w'.store.tables = w.store.tables ∧ w'.store.registry = w.store.registry) ∨
    ∃ pub, w'.published = w.published ++ [pub]

/-- What has not been reached by `save` leaves the store. -/
def VerifyWorld.Quiet (w w' : VerifyWorld Digest) : Prop := w'.store = w.store ∧ w'.published = w.published

theorem VerifyWorld.Quiet.calm {w' : VerifyWorld Digest} (quiet : w.Quiet w') : w.Calm w' :=
  .inl ⟨congrArg SetupStore.tables quiet.1, congrArg SetupStore.registry quiet.1⟩

theorem VerifyWorld.Quiet.trans_calm {w' w'' : VerifyWorld Digest} (quiet : w.Quiet w')
    (calm : w'.Calm w'') : w.Calm w'' := by
  rcases calm with ⟨tables, registry⟩ | ⟨pub, published⟩
  · rw [quiet.1] at tables registry
    exact .inl ⟨tables, registry⟩
  · rw [quiet.2] at published
    exact .inr ⟨pub, published⟩

theorem VerifyWorld.finish_calm (w : VerifyWorld Digest) (job : SetupJob) (report : SetupReport)
    (taken : Rat) (m : SaveMoment) : w.Calm (w.finish job report taken m) := by
  unfold finish
  split
  case isTrue =>
    split
    case h_1 => exact .inr ⟨_, rfl⟩
    case h_2 raised => exact .inl (SetupJob.save_error raised)
  case isFalse => exact .inl ⟨rfl, rfl⟩

variable [DecidableEq Digest]

theorem VerifyHost.VerifySound.next (sound : host.VerifySound w)
    (injective : Function.Injective host.fingerprint) (a : VerifyAction) :
    host.VerifySound (host.next w a) := by
  -- a request that leaves the list leaves the others as they are
  have erased : ∀ {i : Nat} {x : Waiting}, x ∈ w.waiting.eraseIdx i →
      ∃ x' ∈ w.waiting, x'.job = x.job ∧ x'.flight = x.flight := fun mem =>
    ⟨_, List.mem_of_mem_eraseIdx mem, rfl, rfl⟩
  have without : ∀ i, host.VerifySound { w with waiting := w.waiting.eraseIdx i } := fun i =>
    @VerifySound.quit Digest host w sound w.current _ (fun _ _ found => found) fun x mem => erased mem
  cases a with
  | request owner saving body fresh authorized m =>
      unfold VerifyHost.next
      dsimp only
      split
      case h_1 => exact sound
      case h_2 w' admitted =>
        obtain ⟨recent, rfl⟩ := VerifyWorld.admitOwner_eq_ok admitted
        have admitted : host.VerifySound { w with recent } :=
          ⟨sound.cache, sound.flights, sound.current, sound.waiting, sound.published⟩
        split
        case h_1 => exact admitted
        case h_2 => exact admitted.proceed injective rfl
  | reports f report =>
      unfold VerifyHost.next
      dsimp only
      split
      case h_1 config users row =>
        refine sound.land f (fun p mem => List.mem_append_left _ mem) fun flight report' row' told => ?_
        cases told
        cases row.symm.trans row'
        exact ⟨_, List.mem_append_right _ (List.mem_singleton_self _), rfl, rfl, le_rfl⟩
      case h_2 => exact sound
  | fails f =>
      unfold VerifyHost.next
      dsimp only
      split
      case h_1 => exact sound.land f (fun p mem => mem) fun flight report row told => by cases told
      case h_2 => exact sound
  | wake i m =>
      unfold VerifyHost.next
      dsimp only
      split
      case h_1 x listed =>
        split
        case isTrue => exact sound.quit (VerifySound.forgets _) fun x mem => erased mem
        case isFalse =>
          split
          case h_1 report ended =>
            obtain ⟨jobSound, -, flight, row, same⟩ := sound.waiting x (List.mem_of_getElem? listed)
            rw [row, Option.map_some, Option.some.injEq] at ended
            have vouched := sound.flights x.flight flight report row ended
            rw [injective same] at vouched
            exact (without i).goOn jobSound vouched
          case h_2 => exact (without i).leave x
          case h_3 => exact sound
      case h_2 => exact sound
  | cancel i =>
      unfold VerifyHost.next
      dsimp only
      split
      case h_1 x listed =>
        split
        case isTrue => exact sound
        case isFalse =>
          split
          case h_1 =>
            have users := sound.users x.flight fun _ => 0
            refine @VerifySound.quit Digest host _ users w.current _ (fun _ _ found => found) fun x' mem => ?_
            obtain ⟨j, at'⟩ := List.mem_iff_getElem?.mp mem
            rw [List.getElem?_modify] at at'
            obtain ⟨old, row, rfl⟩ := Option.map_eq_some_iff.mp at'
            refine ⟨old, List.mem_of_getElem? row, ?_⟩
            split
            · exact ⟨rfl, rfl⟩
            · exact ⟨rfl, rfl⟩
          case h_2 => exact (without i).leave x
      case h_2 => exact sound
  | tick later =>
      unfold VerifyHost.next
      dsimp only
      split
      case isTrue forward => exact sound.tick forward
      case isFalse => exact sound
  | edit store => exact sound.edit store

/-! ## What raises changes nothing -/

theorem VerifyHost.join_quiet (w : VerifyWorld Digest) (job : SetupJob) : w.Quiet (host.join w job) := by
  unfold join
  split
  case h_1 => exact ⟨rfl, rfl⟩
  case h_2 => exact ⟨rfl, rfl⟩

theorem VerifyHost.leave_quiet (w : VerifyWorld Digest) (x : Waiting) : w.Quiet (host.leave w x) := by
  unfold leave
  dsimp only
  split
  case isTrue => exact ⟨rfl, rfl⟩
  case isFalse => exact ⟨rfl, rfl⟩

theorem VerifyHost.keep_quiet (w : VerifyWorld Digest) (job : SetupJob) (report : SetupReport)
    (token : String) : w.Quiet (host.keep w job report token) := by
  unfold keep
  dsimp only
  split
  case h_1 => exact ⟨rfl, rfl⟩
  case h_2 => exact ⟨rfl, rfl⟩

theorem VerifyHost.verified_calm (w : VerifyWorld Digest) (job : SetupJob) (m : SaveMoment) :
    w.Calm (host.verified w job m) := by
  have purged : w.Quiet w.purge := ⟨rfl, rfl⟩
  unfold verified
  dsimp only
  split
  case isTrue =>
    refine purged.trans_calm ?_
    unfold reuse
    split
    case isTrue =>
      split
      case h_1 => exact VerifyWorld.finish_calm ..
      case h_2 => exact (join_quiet ..).calm
    case isFalse =>
      have forgotten : w.purge.Quiet (w.purge.forget (host.fingerprint job.config)) := ⟨rfl, rfl⟩
      exact forgotten.trans_calm (join_quiet ..).calm
  case isFalse => exact purged.calm

theorem VerifyHost.proceed_calm (w : VerifyWorld Digest) (job : SetupJob) (m : SaveMoment) :
    w.Calm (host.proceed w job m) := by
  have same : w.Quiet w := ⟨rfl, rfl⟩
  unfold proceed
  split
  case isTrue =>
    split
    case h_1 => exact same.calm
    case h_2 =>
      split
      case isTrue => exact verified_calm ..
      case isFalse => exact VerifyWorld.finish_calm ..
  case isFalse =>
    split
    case isTrue =>
      have forgotten : w.Quiet (w.forget (host.fingerprint job.config)) := ⟨rfl, rfl⟩
      exact forgotten.trans_calm (verified_calm ..)
    case isFalse => exact verified_calm ..

/-- A step of a request publishes a profile, or changes neither the tables nor the registry. -/
theorem VerifyHost.next_calm (w : VerifyWorld Digest) {a : VerifyAction} (request : ∀ s, a ≠ .edit s) :
    w.Calm (host.next w a) := by
  have same : w.Quiet w := ⟨rfl, rfl⟩
  have erased : ∀ i, w.Quiet { w with waiting := w.waiting.eraseIdx i } := fun _ => ⟨rfl, rfl⟩
  unfold next
  cases a with
  | request owner saving body fresh authorized m =>
      dsimp only
      split
      case h_1 => exact same.calm
      case h_2 w' admitted =>
        obtain ⟨recent, rfl⟩ := VerifyWorld.admitOwner_eq_ok admitted
        have quiet : w.Quiet { w with recent } := ⟨rfl, rfl⟩
        split
        case h_1 => exact quiet.calm
        case h_2 => exact quiet.trans_calm (proceed_calm ..)
  | reports f report =>
      dsimp only
      split
      case h_1 => exact .inl ⟨rfl, rfl⟩
      case h_2 => exact same.calm
  | fails f =>
      dsimp only
      split
      case h_1 => exact .inl ⟨rfl, rfl⟩
      case h_2 => exact same.calm
  | wake i m =>
      dsimp only
      split
      case h_1 x _ =>
        split
        case isTrue => exact .inl ⟨rfl, rfl⟩
        case isFalse =>
          split
          case h_1 report _ =>
            have left : VerifyWorld.Quiet
                (host.keep { w with waiting := w.waiting.eraseIdx i } x.job report m.token)
                (host.leave (host.keep { w with waiting := w.waiting.eraseIdx i } x.job report m.token) x) :=
              leave_quiet ..
            exact (erased i).trans_calm ((keep_quiet ..).trans_calm
              (left.trans_calm (VerifyWorld.finish_calm ..)))
          case h_2 => exact (erased i).trans_calm (leave_quiet ..).calm
          case h_3 => exact same.calm
      case h_2 => exact same.calm
  | cancel i =>
      dsimp only
      split
      case h_1 =>
        split
        case isTrue => exact same.calm
        case isFalse =>
          split
          case h_1 => exact .inl ⟨rfl, rfl⟩
          case h_2 => exact (erased i).trans_calm (leave_quiet ..).calm
      case h_2 => exact same.calm
  | tick later =>
      dsimp only
      split
      case isTrue => exact .inl ⟨rfl, rfl⟩
      case isFalse => exact same.calm
  | edit store => exact absurd rfl (request store)

/-- A model that is activated is published on a probe of exactly its configuration, which has reported what
is marked as verified, and the report is younger than a verification holds, counted from when a request
took it.  What it lacks was told to the caller with a token that was still good, and listed.  A step of a
request that publishes nothing changes neither the tables nor the registry. -/
theorem model_setup (injective : Function.Injective host.fingerprint)
    (reachable : host.setup.Reachable w) :
    (∀ pub ∈ w.published, pub.job.body.activate = true → pub.Backed w.probes) ∧
      ∀ a, (∀ store, a ≠ .edit store) → w.Calm (host.next w a) := by
  have sound : host.VerifySound w := reachable.invariant (I := host.VerifySound)
    (fun w start => by
      obtain ⟨store, now, rfl⟩ := start
      refine ⟨fun _ _ found => ?_, fun _ _ _ row => ?_, fun _ _ found => ?_,
        fun x mem => absurd mem List.not_mem_nil, fun pub mem => absurd mem List.not_mem_nil⟩
      · cases found
      · cases row
      · cases found)
    fun w a w' _ sound step => by
      cases step
      exact sound.next injective a
  exact ⟨sound.published, fun a request => VerifyHost.next_calm w request⟩

end World

namespace Sample

def verifyHost : VerifyHost ProbeConfig :=
  { setupHost with fingerprint := id, verificationReuse := true }

/-- A store that has the default agent. -/
def agentStore : SetupStore where
  tables := { agents := (Versioned.put {} "default" { others := "agent" }).toOption.getD {} }

def verifyRun (actions : List VerifyAction) : VerifyWorld ProbeConfig :=
  actions.foldl verifyHost.next { store := agentStore }

theorem verifyRun_reachable (actions : List VerifyAction) :
    verifyHost.setup.Reachable (verifyRun actions) := by
  have run : ∀ (actions : List VerifyAction) (w : VerifyWorld ProbeConfig),
      verifyHost.setup.Reachable w → verifyHost.setup.Reachable (actions.foldl verifyHost.next w) := by
    intro actions
    induction actions with
    | nil => exact fun w reachable => reachable
    | cons a actions ih => exact fun w reachable => ih _ (reachable.step rfl)
  exact run actions _ (.init ⟨agentStore, 0, rfl⟩)

def setupBody : SetupRequest := { providerId := "openai", apiKey := some "key", modelId := some "model" }

def setupMoment : SaveMoment := { now := "monday", drawn := "0f", token := "token", draft := "draft" }

def sighted (vision : Bool) : SetupReport where
  verificationRef := "report"
  checks := [("transport", true), ("text", true), ("tool_calling", true), ("tool_pairing", true),
    ("vision", vision), ("streaming", true)]

/-- A model without vision is tested, and activated with the token that tells so. -/
def tokenRun : List VerifyAction := [
  .request "owner" false setupBody "m" none setupMoment, .reports 0 (sighted false), .wake 0 setupMoment,
  .request "owner" true
    { setupBody with verificationToken := some "token", acceptUnverifiedCapabilities := ["vision"] } "m"
    none setupMoment]

theorem token_published : (verifyRun tokenRun).published.any (fun pub => pub.job.body.activate = true ∧
    pub.profile.capabilities.map Prod.fst = ["text", "tool_calling", "streaming"]) = true := by
  decide +kernel

/-- A draft is saved. -/
def unverifiedRun : List VerifyAction :=
  [.request "owner" true { setupBody with activate := false } "m" none setupMoment]

theorem unverified_published : (verifyRun unverifiedRun).published.any (fun pub =>
    pub.profile.capabilities.map Prod.fst = [] ∧ nonempty pub.job.body.verificationToken = none) = true := by
  decide

/-- A request takes the report five seconds after the probe has ended, and another one activates the model
on it just before it expires. -/
def lateRun : List VerifyAction := [
  .request "owner" false setupBody "m" none setupMoment, .reports 0 (sighted true), .tick 5,
  .wake 0 setupMoment, .tick 604, .request "owner" true setupBody "m" none setupMoment]

theorem late_published :
    (verifyRun lateRun).published.any (fun pub => pub.job.body.activate = true ∧ pub.moment = 604) = true ∧
      (verifyRun lateRun).probes.all (fun probe => probe.ended = 0) = true := by
  decide +kernel

end Sample

theorem model_setup_token : ∃ pub ∈ (Sample.verifyRun Sample.tokenRun).published,
    pub.profile.capabilities.map Prod.fst = ["text", "tool_calling", "streaming"] ∧
      pub.Backed (Sample.verifyRun Sample.tokenRun).probes := by
  obtain ⟨pub, mem, both⟩ := List.any_eq_true.mp Sample.token_published
  obtain ⟨activate, names⟩ := of_decide_eq_true both
  refine ⟨pub, mem, names, ?_⟩
  exact (model_setup (fun _ _ same => same) (Sample.verifyRun_reachable Sample.tokenRun)).1 pub mem activate

/-- A draft lacks what nobody has accepted, and a report may be older than a verification holds. -/
theorem setup_unverified :
    (¬∀ (host : VerifyHost ProbeConfig) w, Function.Injective host.fingerprint → host.setup.Reachable w →
      ∀ pub ∈ w.published, (∃ name ∈ setupCapabilities, name ∉ pub.profile.capabilities.map Prod.fst) →
        nonempty pub.job.body.verificationToken ≠ none) ∧
    ¬∀ (host : VerifyHost ProbeConfig) w, Function.Injective host.fingerprint → host.setup.Reachable w →
      ∀ pub ∈ w.published, pub.job.body.activate = true →
        ∃ probe ∈ w.probes, pub.moment ≤ probe.ended + verificationTtl := by
  constructor
  · intro told
    obtain ⟨pub, mem, both⟩ := List.any_eq_true.mp Sample.unverified_published
    obtain ⟨names, none⟩ := of_decide_eq_true both
    refine told Sample.verifyHost _ (fun _ _ same => same)
      (Sample.verifyRun_reachable Sample.unverifiedRun) pub mem ⟨"vision", by decide, ?_⟩ none
    rw [names]
    exact List.not_mem_nil
  · intro young
    obtain ⟨pub, mem, both⟩ := List.any_eq_true.mp Sample.late_published.1
    obtain ⟨activate, moment⟩ := of_decide_eq_true both
    obtain ⟨probe, ended, age⟩ := young Sample.verifyHost _ (fun _ _ same => same)
      (Sample.verifyRun_reachable Sample.lateRun) pub mem activate
    have zero := of_decide_eq_true (List.all_eq_true.mp Sample.late_published.2 probe ended)
    rw [moment, zero] at age
    exact absurd age (by decide +kernel)

end MiHarness

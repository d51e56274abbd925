import MiHarness.Mcp.Convergence
import MiHarness.Storage.Versioned

/-!
# What a publication of `mcp.json` leaves alone

`Mcp.ConfigFile` has the servers of `config/mcp` as only the file writes them.  Here they are with
their other writers: the OAuth callback puts its reference into the record of a server, and plugins
write and delete records of their own.

`publication_frame` says when a publication changes exactly the records of the servers whose entry
has changed.  `_publish` compares an entry with the record and not with the entry of the text before,
so the records have to agree with the entries that stay, and to differ from those that are new.
-/

namespace MiHarness

open Library Library.Utf8

/-- A record of `config/mcp`.  What a plugin puts back has no field `revision`. -/
structure McpRecord where
  profile : ConnectionProfile
  revision : Option Nat
  configRevision : Nat

/-- The records of the servers, and `mcp_file_state`. -/
structure McpConnections where
  records : Versioned String McpRecord := {}
  current : Option McpFileRecord := none

inductive McpConnectionFault where
  | file (e : McpFileError)
  /-- The server has no record. -/
  | removed (message : String) (status : Nat)
  /-- A missing field, or what the store raises. -/
  | other
deriving DecidableEq

def McpConnections.effectiveHash (s : McpConnections) : Option Hash :=
  s.current.map McpFileRecord.effectiveHash

/-! ## The writers -/

/-- The record of a server that is new or whose fields differ gets the next revision. -/
def publishRecord (records : Versioned String McpRecord) (identity : String)
    (profile : ConnectionProfile) : Except McpConnectionFault (Versioned String McpRecord) := do
  let old := records.get identity
  if ∃ r ∈ old, r.profile = profile then return records
  else
    let last ← orThrow (old.elim (some 0) McpRecord.revision) .other
    (records.put identity
      { profile, revision := some (last + 1), configRevision := last + 1 }).mapError fun _ => .other

def publishRecords (records : Versioned String McpRecord) :
    List (String × McpEntry) → Except McpConnectionFault (Versioned String McpRecord)
  | [] => .ok records
  | (identity, entry) :: servers => do
      let records ← publishRecord records identity entry.profile
      publishRecords records servers

variable (host : McpFileHost)

/-- `_publish`. -/
def McpFileHost.publishConnections (s : McpConnections) (disk : McpDisk) (text : List Char)
    (servers : List (String × McpEntry)) (now : Time) :
    Except McpConnectionFault McpConnections := do
  let found ← disk.read.mapError .file
  require (found = some text) (.file (conflictError "配置文件正在变化，请重载；网页草稿已保留"))
  if s.effectiveHash = some (host.digest text) then return s
  else
    let records ← publishRecords s.records servers
    return {
      records
      current := some {
        revision := (s.current.map McpFileRecord.revision).getD 0 + 1
        effectiveHash := host.digest text
        enabled := (servers.filter (·.2.enabled)).map Prod.fst
        serverIds := servers.map Prod.fst
        loadedAt := now } }

/-- `Services.oauth_callback`, when the flow has succeeded for a server. -/
def McpConnections.oauthCallback (s : McpConnections) (server : String) :
    Except McpConnectionFault McpConnections := do
  let r ← orThrow (s.records.get server) (.removed "服务配置已移除" 404)
  let revision ← orThrow r.revision .other
  let profile := { r.profile with oauthRef := some ("oauth:" ++ server) }
  let records ← (s.records.compareAndSet server (some revision)
    { profile, revision := some (revision + 1), configRevision := revision + 1 }).mapError
      fun _ => .other
  return { s with records }

/-- `register_atomic` of a plugin, which publishes a record of its own. -/
def McpConnections.contribute (s : McpConnections) (server : String) (profile : ConnectionProfile)
    (configRevision : Nat) : Except McpConnectionFault McpConnections := do
  let last := ((s.records.get server).bind McpRecord.revision).getD 0
  let records ← (s.records.put server
    { profile, revision := some (last + 1), configRevision }).mapError fun _ => .other
  return { s with records }

/-- `unregister` of a plugin, which puts back what an older version has published. -/
def McpConnections.putBack (s : McpConnections) (server : String) (profile : ConnectionProfile)
    (configRevision : Nat) : Except McpConnectionFault McpConnections := do
  let records ← (s.records.put server
    { profile, revision := none, configRevision }).mapError fun _ => .other
  return { s with records }

inductive McpConnectionAction where
  | publish (disk : McpDisk) (text : List Char) (now : Time)
  | authorized (server : String)
  | contribute (server : String) (profile : ConnectionProfile) (configRevision : Nat)
  | putBack (server : String) (profile : ConnectionProfile) (configRevision : Nat)
  /-- `unregister` of a plugin, when nothing is left to put back. -/
  | withdraw (server : String)

/-- A text is validated before it is published. -/
def McpFileHost.performConnection (s : McpConnections) :
    McpConnectionAction → Except McpConnectionFault McpConnections
  | .publish disk text now => do
      let servers ← (host.validate text).mapError fun
        | .harness e => .file e
        | .other => .other
      host.publishConnections s disk text servers now
  | .authorized server => s.oauthCallback server
  | .contribute server profile configRevision => s.contribute server profile configRevision
  | .putBack server profile configRevision => s.putBack server profile configRevision
  | .withdraw server => .ok { s with records := s.records.delete server }

/-- The steps that do not raise; the others change nothing.  At first no text is published, and the
records are whatever they are. -/
def McpFileHost.connections : System McpConnections McpConnectionAction :=
  .ofNext (·.current = none) fun s a => (host.performConnection s a).toOption

/-! ## A record that is published -/

/-- What a publication makes of the record of a server that it lists. -/
inductive McpRecord.Published (old : Option McpRecord) (profile : ConnectionProfile) :
    Option McpRecord → Prop where
  | kept (r : McpRecord) (found : old = some r) (same : r.profile = profile) :
      Published old profile old
  | written (last : Nat) (next : old.elim (some 0) McpRecord.revision = some last)
      (differs : ∀ r, old = some r → r.profile ≠ profile) :
      Published old profile (some ⟨profile, some (last + 1), last + 1⟩)

/-- The `config_revision` of a record, zero where there is none. -/
def configRevision (r : Option McpRecord) : Nat := r.elim 0 McpRecord.configRevision

section Published

variable {old new : Option McpRecord} {profile : ConnectionProfile}

theorem McpRecord.Published.eq_iff (h : Published old profile new) :
    new = old ↔ ∃ r, old = some r ∧ r.profile = profile := by
  cases h with
  | kept r found same => exact iff_of_true rfl ⟨r, found, same⟩
  | written last next differs =>
      constructor
      · exact fun same => ⟨_, same.symm, rfl⟩
      · rintro ⟨r, found, same⟩
        exact absurd same (differs r found)

theorem McpRecord.Published.raised_iff (h : Published old profile new) :
    MiHarness.configRevision old < MiHarness.configRevision new ↔
      ∀ r, old = some r → r.profile ≠ profile ∧ ∀ last ∈ r.revision, r.configRevision ≤ last := by
  cases h with
  | kept r found same =>
      exact iff_of_false (Nat.lt_irrefl _) fun differs => (differs r found).1 same
  | written last next differs =>
      cases old with
      | none => exact iff_of_true (Nat.succ_pos last) fun _ h => nomatch h
      | some r =>
          have revised : r.revision = some last := next
          constructor
          · rintro lower _ ⟨⟩
            refine ⟨differs r rfl, fun last' h => ?_⟩
            rw [revised] at h
            cases h
            exact Nat.le_of_lt_succ lower
          · exact fun above => Nat.lt_succ_of_le ((above r rfl).2 last revised)

end Published

section Records

variable {records records' : Versioned String McpRecord} {identity : String}

theorem publishRecord_spec {profile : ConnectionProfile}
    (h : publishRecord records identity profile = .ok records') :
    McpRecord.Published (records.get identity) profile (records'.get identity) ∧
      ∀ k, k ≠ identity → records'.get k = records.get k := by
  unfold publishRecord at h
  dsimp only at h
  split at h
  · rename_i same
    obtain ⟨r, found, same⟩ := same
    cases pure_eq_ok.mp h
    exact ⟨.kept r found same, fun _ _ => rfl⟩
  · rename_i differs
    obtain ⟨last, next, h⟩ := bind_eq_ok.mp h
    have read := Versioned.put_get (mapError_eq_ok.mp h)
    refine ⟨?_, fun k other => (read k).trans (if_neg other)⟩
    rw [read, if_pos rfl]
    exact .written last (orThrow_eq_ok.mp next) fun r found same => differs ⟨r, found, same⟩

theorem publishRecords_spec : ∀ {servers : List (String × McpEntry)}
    {records records' : Versioned String McpRecord}, (servers.map Prod.fst).Nodup →
    publishRecords records servers = .ok records' →
    (∀ identity entry, (identity, entry) ∈ servers →
      McpRecord.Published (records.get identity) entry.profile (records'.get identity)) ∧
    ∀ k, k ∉ servers.map Prod.fst → records'.get k = records.get k
  | [], _, _, _, h => by
      cases h
      exact ⟨fun _ _ h => absurd h List.not_mem_nil, fun _ _ => rfl⟩
  | (first, entry) :: servers, records, records', distinct, h => by
      rw [List.map_cons, List.nodup_cons] at distinct
      obtain ⟨records₁, here, h⟩ := bind_eq_ok.mp h
      obtain ⟨published, others⟩ := publishRecord_spec here
      obtain ⟨later, beyond⟩ := publishRecords_spec distinct.2 h
      constructor
      · intro identity entry' member
        rcases List.mem_cons.mp member with same | member
        · cases same
          rw [beyond _ distinct.1]
          exact published
        · have listed : identity ∈ servers.map Prod.fst :=
            List.mem_map_of_mem (f := Prod.fst) (a := (identity, entry')) member
          have other : identity ≠ first := fun same => distinct.1 (same ▸ listed)
          rw [← others _ other]
          exact later identity entry' member
      · intro k absent
        rw [List.map_cons, List.mem_cons, not_or] at absent
        rw [beyond k absent.2, others k absent.1]

end Records

/-! ## Texts in effect -/

variable {host} {s s' : McpConnections} {text : List Char} {old new : List (String × McpEntry)}

/-- The servers of the text that was last published. -/
def McpFileHost.InEffect (host : McpFileHost) (s : McpConnections)
    (servers : List (String × McpEntry)) : Prop :=
  (s.current = none ∧ servers = []) ∨
    ∃ text r, s.current = some r ∧ r.effectiveHash = host.digest text ∧
      host.validate text = .ok servers

/-- The lists of servers are those of the text in effect. -/
def McpFileHost.Listed (host : McpFileHost) (s : McpConnections) : Prop :=
  ∀ r, s.current = some r → ∃ text servers, r.effectiveHash = host.digest text ∧
    host.validate text = .ok servers ∧ r.serverIds = servers.map Prod.fst ∧
      r.enabled = (servers.filter (·.2.enabled)).map Prod.fst

theorem McpFileHost.InEffect.of_hash (valid : host.validate text = .ok old)
    (hash : s.effectiveHash = some (host.digest text)) : host.InEffect s old := by
  obtain ⟨r, current, hash⟩ := Option.map_eq_some_iff.mp hash
  exact .inr ⟨text, r, current, hash, valid⟩

/-- What a publication that returns has done. -/
theorem McpFileHost.publishConnections_eq_ok {disk : McpDisk} {now : Time}
    (h : host.publishConnections s disk text new now = .ok s') :
    (s.effectiveHash = some (host.digest text) ∧ s' = s) ∨
    (s.effectiveHash ≠ some (host.digest text) ∧ publishRecords s.records new = .ok s'.records ∧
      ∃ r, s'.current = some r ∧ r.effectiveHash = host.digest text ∧
        r.serverIds = new.map Prod.fst ∧ r.enabled = (new.filter (·.2.enabled)).map Prod.fst) := by
  unfold publishConnections at h
  obtain ⟨_, _, h⟩ := bind_eq_ok.mp h
  obtain ⟨_, _, h⟩ := bind_eq_ok.mp h
  split at h
  · rename_i effective
    cases pure_eq_ok.mp h
    exact .inl ⟨effective, rfl⟩
  · rename_i other
    obtain ⟨records, published, h⟩ := bind_eq_ok.mp h
    cases pure_eq_ok.mp h
    exact .inr ⟨other, published, _, rfl, rfl, rfl, rfl⟩

/-- The publication of a text that is on the disk and not in effect. -/
theorem McpFileHost.publishConnections_of_read {disk : McpDisk} {now : Time}
    {records : Versioned String McpRecord} (read : disk.read = .ok (some text))
    (other : s.effectiveHash ≠ some (host.digest text))
    (published : publishRecords s.records new = .ok records) :
    host.publishConnections s disk text new now = .ok {
      records
      current := some {
        revision := (s.current.map McpFileRecord.revision).getD 0 + 1
        effectiveHash := host.digest text
        enabled := (new.filter (·.2.enabled)).map Prod.fst
        serverIds := new.map Prod.fst
        loadedAt := now } } := by
  rw [publishConnections, read, mapError_ok, ok_bind, require_pos _ rfl, ok_bind, if_neg other,
    published]
  rfl

theorem McpFileHost.Listed.congr (listed : host.Listed s) (same : s'.current = s.current) :
    host.Listed s' := fun r current => listed r (same ▸ current)

theorem McpFileHost.Listed.step (listed : host.Listed s) {a : McpConnectionAction}
    (h : host.performConnection s a = .ok s') : host.Listed s' := by
  cases a with
  | publish disk text now =>
      obtain ⟨servers, valid, h⟩ := bind_eq_ok.mp h
      rcases publishConnections_eq_ok h with ⟨_, rfl⟩ | ⟨_, _, r, current, hash, ids, enabled⟩
      · exact listed
      · intro r' current'
        cases current.symm.trans current'
        exact ⟨text, servers, hash, mapError_eq_ok.mp valid, ids, enabled⟩
  | authorized server =>
      obtain ⟨_, _, h⟩ := bind_eq_ok.mp h
      obtain ⟨_, _, h⟩ := bind_eq_ok.mp h
      obtain ⟨_, _, h⟩ := bind_eq_ok.mp h
      cases pure_eq_ok.mp h
      exact listed.congr rfl
  | contribute server profile configRevision =>
      obtain ⟨_, _, h⟩ := bind_eq_ok.mp h
      cases pure_eq_ok.mp h
      exact listed.congr rfl
  | putBack server profile configRevision =>
      obtain ⟨_, _, h⟩ := bind_eq_ok.mp h
      cases pure_eq_ok.mp h
      exact listed.congr rfl
  | withdraw server =>
      cases h
      exact listed.congr rfl

theorem McpFileHost.listed (reached : host.connections.Reachable s) : host.Listed s := by
  refine reached.invariant (I := host.Listed) ?_ fun s a s' _ listed step => ?_
  · intro s start r current
    cases start.symm.trans current
  · exact listed.step (toOption_eq_some.mp step)

/-! ## The frame -/

/-- A publication changes the records of the servers whose entry has changed, and no other. -/
structure McpConnections.Frame (old new : List (String × McpEntry)) (s s' : McpConnections) :
    Prop where
  unchanged : ∀ identity entry, (identity, entry) ∈ old → (identity, entry) ∈ new →
    s'.records.get identity = s.records.get identity
  raised : ∀ identity, configRevision (s.records.get identity) <
    configRevision (s'.records.get identity) ↔
      ∃ entry, (identity, entry) ∈ new ∧ (identity, entry) ∉ old
  unlisted : ∀ identity, identity ∉ new.map Prod.fst → ∀ r, s'.current = some r →
    identity ∉ r.serverIds ∧ identity ∉ r.enabled

/-- The records agree with the entries that stay, and differ from those that are new. -/
structure McpConnections.Agrees (old new : List (String × McpEntry)) (s : McpConnections) :
    Prop where
  stay : ∀ identity entry, (identity, entry) ∈ old → (identity, entry) ∈ new →
    ∃ r, s.records.get identity = some r ∧ r.profile = entry.profile
  change : ∀ identity entry, (identity, entry) ∈ new → (identity, entry) ∉ old →
    ∀ r, s.records.get identity = some r →
      r.profile ≠ entry.profile ∧ ∀ last ∈ r.revision, r.configRevision ≤ last

/-- What a publication of another text does. -/
theorem McpConnections.frame_iff (distinct : (new.map Prod.fst).Nodup)
    (published : publishRecords s.records new = .ok s'.records)
    (listed : ∃ r, s'.current = some r ∧ r.serverIds = new.map Prod.fst ∧
      r.enabled = (new.filter (·.2.enabled)).map Prod.fst) :
    McpConnections.Frame old new s s' ↔ s.Agrees old new := by
  obtain ⟨each, beyond⟩ := publishRecords_spec distinct published
  constructor
  · intro frame
    constructor
    · intro identity entry was is
      exact (each identity entry is).eq_iff.mp (frame.unchanged identity entry was is)
    · intro identity entry is wasNot
      exact (each identity entry is).raised_iff.mp ((frame.raised identity).mpr ⟨entry, is, wasNot⟩)
  · intro agrees
    constructor
    · intro identity entry was is
      exact (each identity entry is).eq_iff.mpr (agrees.stay identity entry was is)
    · intro identity
      constructor
      · intro raised
        by_cases present : identity ∈ new.map Prod.fst
        · obtain ⟨⟨identity, entry⟩, is, rfl⟩ := List.mem_map.mp present
          refine ⟨entry, is, fun was => ?_⟩
          rw [(each identity entry is).eq_iff.mpr (agrees.stay identity entry was is)] at raised
          exact Nat.lt_irrefl _ raised
        · rw [beyond identity present] at raised
          exact absurd raised (Nat.lt_irrefl _)
      · rintro ⟨entry, is, wasNot⟩
        exact (each identity entry is).raised_iff.mpr (agrees.change identity entry is wasNot)
    · intro identity absent r current
      obtain ⟨r', current', ids, enabled⟩ := listed
      cases current.symm.trans current'
      rw [ids, enabled]
      refine ⟨absent, fun member => absent ?_⟩
      exact (List.filter_sublist.map Prod.fst).subset member

/-- A publication changes exactly the records of the servers whose entry has changed, if and only if
its text is the one in effect, or the records agree with the entries that stay and differ from the
new ones. -/
theorem publication_frame (collisionFree : Function.Injective host.digest)
    (reached : host.connections.Reachable s) (effective : host.InEffect s old)
    (valid : host.validate text = .ok new) {disk : McpDisk} {now : Time}
    (published : host.publishConnections s disk text new now = .ok s') :
    McpConnections.Frame old new s s' ↔
      (s.effectiveHash = some (host.digest text) ∨ s.Agrees old new) := by
  rcases McpFileHost.publishConnections_eq_ok published with
    ⟨same, rfl⟩ | ⟨other, records, r, current, _, ids, enabled⟩
  · refine iff_of_true ?_ (.inl same)
    obtain ⟨r, current, hash⟩ := Option.map_eq_some_iff.mp same
    have unique : ∀ {text' servers}, r.effectiveHash = host.digest text' →
        host.validate text' = .ok servers → servers = new := by
      intro text' servers hash' valid'
      cases collisionFree (hash'.symm.trans hash)
      exact Except.ok.inj (valid'.symm.trans valid)
    have kept : old = new := by
      rcases effective with ⟨none, _⟩ | ⟨text', r', current', hash', valid'⟩
      · cases current.symm.trans none
      · cases current.symm.trans current'
        exact unique hash' valid'
    subst kept
    constructor
    · exact fun _ _ _ _ => rfl
    · intro identity
      refine iff_of_false (Nat.lt_irrefl _) ?_
      rintro ⟨entry, is, wasNot⟩
      exact wasNot is
    · intro identity absent r' current'
      cases current.symm.trans current'
      obtain ⟨text', servers, hash', valid', ids, enabled⟩ := McpFileHost.listed reached r current
      cases unique hash' valid'
      rw [ids, enabled]
      exact ⟨absent, fun member => absent ((List.filter_sublist.map Prod.fst).subset member)⟩
  · rw [or_iff_right other]
    exact McpConnections.frame_iff (host.validate_distinct valid) records ⟨r, current, ids, enabled⟩

namespace Sample

/-- A file with one server, which is reached by HTTP. -/
def remoteListing : List Char :=
  ("\x7b\"schema_version\":1,\"mcpServers\":\x7b\"remote\":\x7b\"display_name\":\"R\"," ++
    "\"transport\":\"streamable_http\",\"endpoint\":\"https://r.example/mcp\"\x7d\x7d\x7d").toList

/-- The same file with a line break at its end. -/
def remoteListing' : List Char := remoteListing ++ ['\n']

def remote : List (String × JsonData) :=
  [("display_name", .string "R"), ("transport", .string "streamable_http"),
    ("endpoint", .string "https://r.example/mcp")]

def remoteData : JsonData :=
  .object [("schema_version", .int 1), ("mcpServers", .object [("remote", .object remote)])]

theorem remoteData_distinct : remoteData.Distinct := by
  refine .object _ (by decide) fun f hf => ?_
  rcases List.mem_cons.mp hf with rfl | hf
  · exact .int 1
  rcases List.mem_singleton.mp hf with rfl
  refine .object _ (by decide) fun f hf => ?_
  rcases List.mem_singleton.mp hf with rfl
  refine .object _ (by decide) fun f hf => ?_
  simp only [remote, List.mem_cons, List.not_mem_nil, or_false] at hf
  rcases hf with rfl | rfl | rfl
  · exact .string "R"
  · exact .string "streamable_http"
  · exact .string "https://r.example/mcp"

def remoteHost : McpFileHost where
  digest := String.ofList
  loads text :=
    if text ∈ [remoteListing, remoteListing'] then .ok remoteData else .error (.malformed 1 1)
  distinct text data h := by
    split at h
    · cases h
      exact remoteData_distinct
    · cases h
  secretKey _ := false
  urlsplit
    | "https://r.example/mcp" => some ⟨"https", "r.example", "", "", ""⟩
    | _ => none
  fields identity
    | [("display_name", .string displayName), ("transport", .string "streamable_http"),
        ("endpoint", .string endpoint)] =>
        some { serverId := identity, displayName, transport := .streamableHttp, endpoint }
    | _ => none

def remoteServers : List (String × McpEntry) :=
  [("remote", { enabled := false
                profile := { serverId := "remote", displayName := "R", transport := .streamableHttp
                             endpoint := "https://r.example/mcp" } })]

theorem remote_valid {text : List Char} (known : text ∈ [remoteListing, remoteListing']) :
    remoteHost.validate text = .ok remoteServers := by
  have sizes : ∀ t ∈ [remoteListing, remoteListing'], (encode t).length ≤ 1048576 := by
    decide +kernel
  have loaded : remoteHost.loads text = .ok remoteData := by simp only [remoteHost, if_pos known]
  rw [McpFileHost.validate, require_pos _ (sizes text known), loaded]
  rfl

/-- The state after a publication. -/
def publishedRemote (text : List Char) (records : Versioned String McpRecord) (revision : Nat) :
    McpConnections where
  records := (publishRecords records remoteServers).toOption.getD records
  current := some {
    revision, effectiveHash := String.ofList text, enabled := [], serverIds := ["remote"]
    loadedAt := 1 }

/-- The file is published for the first time. -/
def firstListing : McpConnections := publishedRemote remoteListing {} 1

/-- The server is authorized. -/
def authorized : McpConnections := (firstListing.oauthCallback "remote").toOption.getD firstListing

theorem remoteHost_collisionFree : Function.Injective remoteHost.digest := fun _ _ h =>
  String.ofList_injective h

/-- A publication from a state whose records can be written. -/
theorem publishes {text : List Char} {s : McpConnections} (known : text ∈ [remoteListing, remoteListing'])
    (other : s.effectiveHash ≠ some (remoteHost.digest text))
    (written : (publishRecords s.records remoteServers).toOption.isSome = true) :
    remoteHost.publishConnections s (.file (encode text)) text remoteServers 1 =
      .ok (publishedRemote text s.records ((s.current.map McpFileRecord.revision).getD 0 + 1)) := by
  obtain ⟨records, published⟩ := Option.isSome_iff_exists.mp written
  have done := toOption_eq_some.mp published
  rw [McpFileHost.publishConnections_of_read (McpFileHost.read_encode (remote_valid known)) other done,
    publishedRemote, done]
  rfl

theorem firstListing_reachable : remoteHost.connections.Reachable firstListing := by
  have start : remoteHost.connections.Reachable {} := .init rfl
  have known : remoteListing ∈ [remoteListing, remoteListing'] := List.mem_cons_self ..
  refine start.step (a := .publish (.file (encode remoteListing)) remoteListing 1)
    (toOption_eq_some.mpr ?_)
  rw [McpFileHost.performConnection, remote_valid known, mapError_ok, ok_bind]
  have unpublished : ({} : McpConnections).effectiveHash ≠ some (remoteHost.digest remoteListing) :=
    (Option.some_ne_none _).symm
  have written : (publishRecords ({} : McpConnections).records remoteServers).toOption.isSome = true := by
    decide
  exact publishes known unpublished written

theorem authorized_reachable : remoteHost.connections.Reachable authorized := by
  refine firstListing_reachable.step (a := .authorized "remote") (toOption_eq_some.mpr ?_)
  have returns : (firstListing.oauthCallback "remote").toOption.isSome = true := by decide
  obtain ⟨s, callback⟩ := Option.isSome_iff_exists.mp returns
  rw [authorized, callback]
  exact toOption_eq_some.mp callback

theorem listing_changes : some (String.ofList remoteListing) ≠ some (remoteHost.digest remoteListing') := by
  intro same
  have lists : remoteListing = remoteListing ++ ['\n'] :=
    String.ofList_injective (Option.some.inj same)
  generalize remoteListing = text at lists
  have lengths := congrArg List.length lists
  rw [List.length_append] at lengths
  exact absurd lengths (Nat.ne_of_lt (Nat.lt_succ_self _))

end Sample

theorem publication_frame_first :
    McpConnections.Frame Sample.remoteServers Sample.remoteServers Sample.firstListing
        (Sample.publishedRemote Sample.remoteListing' Sample.firstListing.records 2) ↔
      (Sample.firstListing.effectiveHash = some (Sample.remoteHost.digest Sample.remoteListing') ∨
        Sample.firstListing.Agrees Sample.remoteServers Sample.remoteServers) := by
  have effective : Sample.remoteHost.InEffect Sample.firstListing Sample.remoteServers :=
    .of_hash (Sample.remote_valid (List.mem_cons_self ..)) rfl
  have known : Sample.remoteListing' ∈ [Sample.remoteListing, Sample.remoteListing'] :=
    List.mem_cons_of_mem _ (List.mem_cons_self ..)
  exact publication_frame Sample.remoteHost_collisionFree Sample.firstListing_reachable effective
    (Sample.remote_valid known)
    (Sample.publishes known Sample.listing_changes (by decide +kernel))

/-- A server is authorized, and a line break is added to the file: the reference is gone. -/
theorem publication_drops_reference : ¬∀ (host : McpFileHost), Function.Injective host.digest →
    ∀ (s s' : McpConnections) (old new : List (String × McpEntry)) (text : List Char)
      (disk : McpDisk) (now : Time), host.connections.Reachable s → host.InEffect s old →
      host.validate text = .ok new → host.publishConnections s disk text new now = .ok s' →
      McpConnections.Frame old new s s' := by
  intro framed
  have hash : Sample.authorized.effectiveHash = some (String.ofList Sample.remoteListing) := by
    decide +kernel
  have effective : Sample.remoteHost.InEffect Sample.authorized Sample.remoteServers :=
    .of_hash (Sample.remote_valid (List.mem_cons_self ..)) hash
  have known : Sample.remoteListing' ∈ [Sample.remoteListing, Sample.remoteListing'] :=
    List.mem_cons_of_mem _ (List.mem_cons_self ..)
  have frame := framed Sample.remoteHost Sample.remoteHost_collisionFree _ _ _ _ _ _ _
    Sample.authorized_reachable effective (Sample.remote_valid known)
    (Sample.publishes known (by rw [hash]; exact Sample.listing_changes) (by decide +kernel))
  have same := frame.unchanged "remote" _ (List.mem_cons_self ..) (List.mem_cons_self ..)
  have reference := congrArg (Option.map fun r : McpRecord => r.profile.oauthRef) same
  revert reference
  decide +kernel

end MiHarness

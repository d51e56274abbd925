import MiHarness.Mcp.ConfigFile

/-!
# Reloads of the file

Whatever saves, edits and crashes have left, a reload that finds a valid text leaves that text published:
the record, the servers and their profiles are the text's (`McpFileStore.Publishes`).  This rests on what
is kept at every step, that the record belongs to some valid text whose profiles are the rows, because
`_publish` returns at once where the text is the one in effect.

It returns before it settles the journals, too.  So a journal stays prepared exactly where the text found
is the one in effect and a journal was prepared (`reload_converges`).
-/

namespace MiHarness

open Library Library.Utf8

variable {host : McpFileHost}

/-! ## Texts -/

theorem McpFileHost.validateEntries_keys : ∀ {entries : List (String × JsonData)}
    {servers : List (String × McpEntry)}, host.validateEntries entries = .ok servers →
      servers.map Prod.fst = entries.map Prod.fst
  | [], servers, h => by
      cases h
      rfl
  | (identity, entry) :: entries, servers, h => by
      rw [validateEntries] at h
      obtain ⟨server, -, h⟩ := bind_eq_ok.mp h
      obtain ⟨rest, hrest, h⟩ := bind_eq_ok.mp h
      cases h
      exact congrArg (identity :: ·) (validateEntries_keys hrest)

theorem documentServers_distinct {data : JsonData} {servers : List (String × JsonData)}
    (distinct : data.Distinct) (h : documentServers data = .ok servers) :
    (servers.map Prod.fst).Nodup := by
  unfold documentServers at h
  split at h
  case h_2 => cases h
  case h_1 fields =>
    split at h
    case h_2 => cases h
    case h_1 found _ listed =>
      split at h
      case isFalse => cases h
      case isTrue =>
        cases h
        have member := Table.mem_of_lookup listed
        cases distinct with
        | object _ _ each =>
            cases each _ member with
            | object _ nodup _ => exact nodup

/-- A valid text has no server twice. -/
theorem McpFileHost.validate_distinct {text : List Char} {servers : List (String × McpEntry)}
    (h : host.validate text = .ok servers) : (servers.map Prod.fst).Nodup := by
  rw [validate] at h
  obtain ⟨-, -, h⟩ := bind_eq_ok.mp h
  obtain ⟨data, loaded, h⟩ := bind_eq_ok.mp h
  obtain ⟨entries, document, h⟩ := bind_eq_ok.mp h
  obtain ⟨-, -, h⟩ := bind_eq_ok.mp h
  rw [validateEntries_keys h]
  refine documentServers_distinct (host.distinct text data ?_) document
  cases parsed : host.loads text with
  | error e =>
      rw [parsed] at loaded
      cases loaded
  | ok data' =>
      rw [parsed] at loaded
      cases loaded
      rfl

/-! ## Rows -/

theorem get?_publishProfile (profiles : Table String McpRow) (identity : String)
    (profile : ConnectionProfile) : ∃ row,
      (publishProfile profiles identity profile).get? identity = some row ∧ row.profile = profile := by
  rw [publishProfile]
  split
  case h_1 old found =>
    split
    case isTrue same => exact ⟨old, found, same⟩
    case isFalse => exact ⟨_, (Table.get?_put ..).trans (if_pos rfl), rfl⟩
  case h_2 => exact ⟨_, (Table.get?_put ..).trans (if_pos rfl), rfl⟩

theorem get?_publishProfile_ne (profiles : Table String McpRow) {identity other : String}
    (profile : ConnectionProfile) (h : other ≠ identity) :
    (publishProfile profiles identity profile).get? other = profiles.get? other := by
  rw [publishProfile]
  split
  · split
    · rfl
    · exact (Table.get?_put ..).trans (if_neg h)
  · exact (Table.get?_put ..).trans (if_neg h)

theorem get?_publishProfiles_of_notMem : ∀ (servers : List (String × McpEntry))
    (profiles : Table String McpRow) {identity : String}, identity ∉ servers.map Prod.fst →
      (publishProfiles profiles servers).get? identity = profiles.get? identity
  | [], _, _, _ => rfl
  | (_, entry) :: servers, profiles, _, h => by
      rw [List.map_cons, List.mem_cons, not_or] at h
      rw [publishProfiles, get?_publishProfiles_of_notMem servers _ h.2,
        get?_publishProfile_ne profiles entry.profile h.1]

theorem get?_publishProfiles : ∀ (servers : List (String × McpEntry))
    (profiles : Table String McpRow), (servers.map Prod.fst).Nodup →
      ∀ identity entry, (identity, entry) ∈ servers → ∃ row,
        (publishProfiles profiles servers).get? identity = some row ∧ row.profile = entry.profile
  | [], _, _, _, _, h => absurd h List.not_mem_nil
  | (first, entry) :: servers, profiles, distinct, identity, entry', h => by
      rw [List.map_cons, List.nodup_cons] at distinct
      rw [publishProfiles]
      rcases List.mem_cons.mp h with same | later
      · obtain ⟨rfl, rfl⟩ := Prod.mk.inj same
        rw [get?_publishProfiles_of_notMem servers _ distinct.1]
        exact get?_publishProfile profiles _ _
      · exact get?_publishProfiles servers _ distinct.2 identity entry' later

/-! ## What is published -/

/-- The record and the rows are those of a text with these servers. -/
structure McpFileStore.Publishes (host : McpFileHost) (s : McpFileStore) (text : List Char)
    (servers : List (String × McpEntry)) : Prop where
  record : ∃ r, s.current = some r ∧ r.effectiveHash = host.digest text ∧
    r.serverIds = servers.map Prod.fst ∧ r.enabled = (servers.filter (·.2.enabled)).map Prod.fst
  profiles : ∀ identity entry, (identity, entry) ∈ servers → ∃ row,
    s.profiles.get? identity = some row ∧ row.profile = entry.profile

/-- What is in effect was a valid text. -/
def McpFileStore.Sound (host : McpFileHost) (s : McpFileStore) : Prop :=
  s.current = none ∨ ∃ text servers, host.validate text = .ok servers ∧ s.Publishes host text servers

/-- No save is left prepared. -/
def McpFileStore.Settled (s : McpFileStore) : Prop :=
  ∀ identity journal, s.journals.get? identity = some journal → journal.state ≠ .prepared

variable {s : McpFileStore} {text : List Char} {servers : List (String × McpEntry)}

theorem McpFileHost.publishText_publishes (collisionFree : Function.Injective host.digest)
    (valid : host.validate text = .ok servers) (sound : s.Sound host) (journal : Option JournalId)
    (now : Time) : (host.publishText s text servers journal now).Publishes host text servers := by
  rw [publishText]
  split
  case isTrue effective =>
    rcases sound with none | ⟨text', servers', valid', published⟩
    · rw [McpFileStore.effectiveHash, none] at effective
      cases effective
    · obtain ⟨r, current, hash, -, -⟩ := published.record
      rw [McpFileStore.effectiveHash, current] at effective
      have same : text = text' := collisionFree ((Option.some.inj effective).symm.trans hash)
      rw [same, valid'] at valid
      cases valid
      rw [same]
      exact published
  case isFalse =>
    refine ⟨⟨_, rfl, rfl, rfl, rfl⟩, ?_⟩
    exact get?_publishProfiles servers s.profiles (host.validate_distinct valid)

theorem McpJournal.settle_state (hash : Hash) (journal : McpJournal) :
    (journal.settle hash).state ≠ .prepared := by
  rw [settle]
  split
  · dsimp only
    split <;> decide
  · assumption

/-- A publication settles the journals unless the text is in effect. -/
theorem McpFileHost.publishText_settled (host : McpFileHost) (s : McpFileStore) (text : List Char)
    (servers : List (String × McpEntry)) (journal : Option JournalId) (now : Time) :
    (host.publishText s text servers journal now).Settled ↔
      ¬(s.effectiveHash = some (host.digest text) ∧ ¬s.Settled) := by
  rw [publishText]
  split
  case isTrue effective => rw [and_iff_right effective, not_not]
  case isFalse other =>
    refine iff_of_true ?_ fun h => other h.1
    intro identity journal found
    rw [Table.get?_mapRows, Option.map_eq_some_iff] at found
    obtain ⟨before, -, rfl⟩ := found
    exact before.settle_state _

theorem McpFileHost.effectiveHash_publishText (host : McpFileHost) (s : McpFileStore)
    (text : List Char) (servers : List (String × McpEntry)) (journal : Option JournalId) (now : Time) :
    (host.publishText s text servers journal now).effectiveHash = some (host.digest text) := by
  rw [publishText]
  split
  · assumption
  · rfl

theorem McpFileHost.publish_eq_ok {disk : McpDisk} {journal : Option JournalId} {now : Time}
    {s' : McpFileStore} (h : host.publish s disk text servers journal now = .ok s') :
    disk.read = .ok (some text) ∧ s' = host.publishText s text servers journal now := by
  obtain ⟨found, read, h⟩ := bind_eq_ok.mp h
  obtain ⟨_, same, h⟩ := bind_eq_ok.mp h
  cases h
  rw [require_eq_ok.mp same] at read
  exact ⟨read, rfl⟩

theorem McpFileHost.publish_of_read {disk : McpDisk} (read : disk.read = .ok (some text))
    (journal : Option JournalId) (now : Time) : host.publish s disk text servers journal now =
      .ok (host.publishText s text servers journal now) := by
  rw [publish, read]
  show (require _ _ >>= fun _ => _) = _
  rw [require_pos _ rfl]
  rfl

/-! ## Every run -/

/-- The servers that a holder of the lock carries are those of its text. -/
def McpHolder.Valid (host : McpFileHost) : McpHolder → Prop
  | .loaded text servers | .comparing text servers _ | .expected text servers _
  | .prepared text servers _ _ | .compared text servers _ | .replaced text servers _ =>
      host.validate text = .ok servers
  | .loading | .reloaded _ | .refused _ | .saved => True

structure McpFileWorld.Sound (host : McpFileHost) (w : McpFileWorld) : Prop where
  store : w.store.Sound host
  holder : ∀ holder, w.holder = some holder → holder.Valid host

variable {w w' : McpFileWorld}

/-- What the journals and the status are does not matter. -/
theorem McpFileStore.Sound.congr {s' : McpFileStore} (sound : s.Sound host)
    (current : s'.current = s.current) (profiles : s'.profiles = s.profiles) : s'.Sound host := by
  rcases sound with none | ⟨text, servers, valid, published⟩
  · exact .inl (current.trans none)
  · refine .inr ⟨text, servers, valid, ?_⟩
    obtain ⟨record, rows⟩ := published
    rw [← current] at record
    rw [← profiles] at rows
    exact ⟨record, rows⟩

theorem McpFileWorld.Sound.released (sound : w.Sound host) :
    McpFileWorld.Sound host { w with holder := none } :=
  ⟨sound.store, fun _ h => by cases h⟩

theorem McpFileWorld.Sound.moved (sound : w.Sound host) {holder : McpHolder}
    (valid : holder.Valid host) : McpFileWorld.Sound host { w with holder := some holder } :=
  ⟨sound.store, fun _ h => by
    cases h
    exact valid⟩

theorem McpFileWorld.Sound.advance (collisionFree : Function.Injective host.digest)
    (sound : w.Sound host) {holder : McpHolder} (valid : holder.Valid host) (fresh : JournalId)
    (now : Time) : (host.advance w fresh now holder).Sound host := by
  cases holder with
  | loading =>
      rw [McpFileHost.advance]
      split
      · exact sound.moved trivial
      · exact sound.moved trivial
      · split
        case h_1 servers validated => exact sound.moved validated
        case h_2 => exact sound.moved trivial
        case h_3 => exact sound.released
  | loaded text servers =>
      rw [McpFileHost.advance]
      split
      case h_1 store published =>
        obtain ⟨-, rfl⟩ := McpFileHost.publish_eq_ok published
        refine ⟨.inr ⟨text, servers, valid, ?_⟩, fun _ h => ?_⟩
        · exact host.publishText_publishes collisionFree valid sound.store none now
        · cases h
          trivial
      case h_2 => exact sound.moved trivial
  | reloaded _ | refused _ | saved =>
      exact ⟨sound.store.congr rfl rfl, fun _ h => by cases h⟩
  | comparing text servers expected =>
      rw [McpFileHost.advance]
      split
      · split
        · exact sound.moved valid
        · exact sound.released
      · exact sound.released
  | expected text servers current =>
      exact ⟨sound.store.congr rfl rfl, fun _ h => by
        cases h
        exact valid⟩
  | prepared text servers current journal =>
      rw [McpFileHost.advance]
      split
      · split
        · exact sound.moved valid
        · exact sound.released
      · exact sound.released
  | compared text servers journal =>
      exact ⟨sound.store, fun _ h => by
        cases h
        exact valid⟩
  | replaced text servers journal =>
      rw [McpFileHost.advance]
      split
      case h_1 store published =>
        obtain ⟨-, rfl⟩ := McpFileHost.publish_eq_ok published
        refine ⟨.inr ⟨text, servers, valid, ?_⟩, fun _ h => ?_⟩
        · exact host.publishText_publishes collisionFree valid sound.store (some journal) now
        · cases h
          trivial
      case h_2 => exact sound.released

theorem McpFileWorld.Sound.next (collisionFree : Function.Injective host.digest)
    (sound : w.Sound host) {a : McpFileAction} (h : host.next w a = some w') : w'.Sound host := by
  cases a with
  | edit disk =>
      cases h
      exact ⟨sound.store, sound.holder⟩
  | reload =>
      rw [McpFileHost.next] at h
      split at h
      · cases h
        exact sound.moved trivial
      · cases h
  | blocked =>
      rw [McpFileHost.next] at h
      split at h
      · cases h
        exact sound
      · cases h
  | save text expected =>
      rw [McpFileHost.next] at h
      split at h
      case h_1 servers _ valid =>
        cases h
        exact sound.moved valid
      case h_2 => cases h
  | advance fresh now =>
      obtain ⟨holder, held, rfl⟩ := Option.map_eq_some_iff.mp h
      exact sound.advance collisionFree (sound.holder holder held) fresh now
  | stop =>
      cases h
      exact sound.released

/-- Whatever saves, edits, reloads and crashes there have been, what is in effect was a valid text. -/
theorem McpFileHost.sound_of_reachable (collisionFree : Function.Injective host.digest)
    (reachable : host.system.Reachable w) : w.Sound host := by
  refine System.Reachable.invariant (I := McpFileWorld.Sound host) (fun w start => ?_) ?_ reachable
  · exact ⟨.inl start.current, fun _ h => by cases start.holder.symm.trans h⟩
  · exact fun _ _ _ _ sound h => sound.next collisionFree h

/-! ## Reloads -/

/-- The steps of a reload, and edits between them. -/
def McpFileAction.meantime : McpFileAction → Prop
  | .edit _ | .advance _ _ => True
  | _ => False

/-- The steps of a reload alone. -/
def McpFileAction.alone : McpFileAction → Prop
  | .advance _ _ => True
  | _ => False

/-- A reload that starts in a world and has ended in another one, with only some steps since; it has
found and published a text, or has refused what it has found, with the lock or before. -/
inductive McpFileHost.Reloads (host : McpFileHost) (since : McpFileAction → Prop) (w : McpFileWorld) :
    Option (List Char) → McpFileWorld → Prop
  | found {w₁ w₂ w' : McpFileWorld} {text : List Char} {fresh : JournalId} {now : Time} :
      host.next w .reload = some w₁ → (host.system.restrict fun _ a => since a).Path w₁ w₂ →
      w₂.holder = some (.reloaded text) → host.next w₂ (.advance fresh now) = some w' →
      Reloads host since w (some text) w'
  | refused {w₁ w₂ w' : McpFileWorld} {e : McpFileError} {fresh : JournalId} {now : Time} :
      host.next w .reload = some w₁ → (host.system.restrict fun _ a => since a).Path w₁ w₂ →
      w₂.holder = some (.refused e) → host.next w₂ (.advance fresh now) = some w' →
      Reloads host since w none w'
  | blocked {w' : McpFileWorld} : host.next w .blocked = some w' → Reloads host since w none w'

/-- A reload that is blocked has found a link, and has changed nothing. -/
theorem McpFileHost.blocked_eq (h : host.next w .blocked = some w') : w.disk = .link ∧ w' = w := by
  rw [McpFileHost.next] at h
  split at h
  case h_1 link =>
    cases h
    exact ⟨link, rfl⟩
  case h_2 => cases h

/-- How far a reload has come that has started with the database `s`. -/
def McpFileHost.During (host : McpFileHost) (s : McpFileStore) (w : McpFileWorld) : Prop :=
  match w.holder with
  | none => True
  | some .loading | some (.refused _) => w.store = s
  | some (.loaded text servers) => w.store = s ∧ host.validate text = .ok servers
  | some (.reloaded text) => ∃ servers now, host.validate text = .ok servers ∧
      w.store = host.publishText s text servers none now
  | _ => False

theorem McpFileHost.During.step (during : host.During s w) {a : McpFileAction}
    (since : a.meantime) (h : host.next w a = some w') : host.During s w' := by
  cases a with
  | edit disk =>
      cases h
      exact during
  | advance fresh now =>
      obtain ⟨holder, held, rfl⟩ := Option.map_eq_some_iff.mp h
      unfold During at during
      rw [held] at during
      cases holder with
      | loading =>
          rw [McpFileHost.advance]
          split
          · exact during
          · exact during
          · split
            case h_1 servers validated => exact ⟨during, validated⟩
            case h_2 => exact during
            case h_3 => trivial
      | loaded text servers =>
          rw [McpFileHost.advance]
          split
          case h_1 store published =>
            obtain ⟨-, rfl⟩ := McpFileHost.publish_eq_ok published
            exact ⟨servers, now, during.2, by rw [during.1]⟩
          case h_2 => exact during.1
      | reloaded _ => trivial
      | refused _ => trivial
      | comparing _ _ _ => exact during.elim
      | expected _ _ _ => exact during.elim
      | prepared _ _ _ _ => exact during.elim
      | compared _ _ _ => exact during.elim
      | replaced _ _ _ => exact during.elim
      | saved => exact during.elim
  | reload => exact since.elim
  | blocked => exact since.elim
  | save text expected => exact since.elim
  | stop => exact since.elim

theorem McpFileHost.During.path {since : McpFileAction → Prop} (quiet : ∀ a, since a → a.meantime)
    {w₁ w₂ : McpFileWorld} (path : (host.system.restrict fun _ a => since a).Path w₁ w₂)
    (during : host.During s w₁) : host.During s w₂ := by
  induction path with
  | refl => exact during
  | tail _ step ih => exact ih.step (quiet _ step.1) step.2

theorem McpFileHost.During.start (h : host.next w .reload = some w') : host.During w.store w' := by
  rw [next] at h
  split at h
  · cases h
    exact rfl
  · cases h

/-- There is a valid text on the disk. -/
def McpFileHost.Finds (host : McpFileHost) (disk : McpDisk) (text : List Char) : Prop :=
  disk.read = .ok (some text) ∧ ∃ servers, host.validate text = .ok servers

theorem McpFileHost.Finds.unique {disk : McpDisk} {text' : List Char} (h : host.Finds disk text)
    (h' : host.Finds disk text') : text = text' := by
  cases h.1.symm.trans h'.1
  rfl

/-- How far a reload has come with a disk that nobody edits. -/
def McpFileHost.Undisturbed (host : McpFileHost) (disk : McpDisk) (w : McpFileWorld) : Prop :=
  w.disk = disk ∧
    match w.holder with
    | none | some .loading => True
    | some (.loaded text servers) => disk.read = .ok (some text) ∧ host.validate text = .ok servers
    | some (.reloaded text) => host.Finds disk text
    | some (.refused _) => ∀ text, ¬host.Finds disk text
    | _ => False

theorem McpFileHost.Undisturbed.step {disk : McpDisk} (undisturbed : host.Undisturbed disk w)
    {a : McpFileAction} (alone : a.alone) (h : host.next w a = some w') :
    host.Undisturbed disk w' := by
  cases a with
  | advance fresh now =>
      obtain ⟨holder, held, rfl⟩ := Option.map_eq_some_iff.mp h
      obtain ⟨rfl, undisturbed⟩ := undisturbed
      rw [held] at undisturbed
      cases holder with
      | loading =>
          rw [McpFileHost.advance]
          split
          case h_1 e read => exact ⟨rfl, fun text finds => by cases read.symm.trans finds.1⟩
          case h_2 read => exact ⟨rfl, fun text finds => by cases read.symm.trans finds.1⟩
          case h_3 text read =>
            have invalid : (∀ servers, host.validate text ≠ .ok servers) →
                ∀ text, ¬host.Finds w.disk text := by
              rintro invalid text' ⟨read', servers, valid⟩
              cases read.symm.trans read'
              exact invalid servers valid
            split
            case h_1 servers validated => exact ⟨rfl, read, validated⟩
            case h_2 e refused =>
              exact ⟨rfl, invalid fun _ valid => by cases refused.symm.trans valid⟩
            case h_3 => exact ⟨rfl, trivial⟩
      | loaded text servers =>
          rw [McpFileHost.advance]
          split
          case h_1 => exact ⟨rfl, undisturbed.1, servers, undisturbed.2⟩
          case h_2 e refused =>
            rw [McpFileHost.publish_of_read undisturbed.1] at refused
            cases refused
      | reloaded _ => exact ⟨rfl, trivial⟩
      | refused _ => exact ⟨rfl, trivial⟩
      | comparing _ _ _ => exact undisturbed.elim
      | expected _ _ _ => exact undisturbed.elim
      | prepared _ _ _ _ => exact undisturbed.elim
      | compared _ _ _ => exact undisturbed.elim
      | replaced _ _ _ => exact undisturbed.elim
      | saved => exact undisturbed.elim
  | edit disk => exact alone.elim
  | reload => exact alone.elim
  | blocked => exact alone.elim
  | save text expected => exact alone.elim
  | stop => exact alone.elim

theorem McpFileHost.Undisturbed.path {disk : McpDisk} {w₁ w₂ : McpFileWorld}
    (path : (host.system.restrict fun _ a => a.alone).Path w₁ w₂)
    (undisturbed : host.Undisturbed disk w₁) : host.Undisturbed disk w₂ := by
  induction path with
  | refl => exact undisturbed
  | tail _ step ih => exact ih.step step.1 step.2

theorem McpFileHost.Undisturbed.start (h : host.next w .reload = some w') :
    host.Undisturbed w.disk w' := by
  rw [next] at h
  split at h
  · cases h
    exact ⟨rfl, trivial⟩
  · cases h

/-- A reload that nobody disturbs finds exactly the valid text on the disk. -/
theorem McpFileHost.Reloads.alone {found : Option (List Char)}
    (reloads : host.Reloads McpFileAction.alone w found w') (text : List Char) :
    found = some text ↔ host.Finds w.disk text := by
  cases reloads with
  | found starts path held _ =>
      have undisturbed := Undisturbed.path path (Undisturbed.start starts)
      rw [Undisturbed, held] at undisturbed
      constructor
      · intro same
        cases same
        exact undisturbed.2
      · exact fun finds => congrArg some (undisturbed.2.unique finds)
  | refused starts path held _ =>
      have undisturbed := Undisturbed.path path (Undisturbed.start starts)
      rw [Undisturbed, held] at undisturbed
      exact iff_of_false (fun h => by cases h) (undisturbed.2 text)
  | blocked blocks =>
      obtain ⟨link, -⟩ := McpFileHost.blocked_eq blocks
      refine iff_of_false (fun h => by cases h) fun finds => ?_
      rw [Finds, link] at finds
      cases finds.1

theorem McpFileHost.Reloads.path {since : McpFileAction → Prop} {found : Option (List Char)}
    (reloads : host.Reloads since w found w') : host.system.Path w w' := by
  cases reloads with
  | found starts path _ returns | refused starts path _ returns =>
      have started : host.system.Path w _ := .tail .refl starts
      exact (started.trans path.of_restrict).tail returns
  | blocked blocks => exact .tail .refl blocks

/-! ## Undisturbed runs -/

theorem McpFileHost.read_encode (valid : host.validate text = .ok servers) :
    (McpDisk.file (encode text)).read = .ok (some text) := by
  rw [validate] at valid
  obtain ⟨_, fits, -⟩ := bind_eq_ok.mp valid
  rw [McpDisk.read, if_neg (Nat.not_lt.mpr (require_eq_ok.mp fits)), decodeStrict_encode]

/-- The step that a holder takes. -/
theorem McpFileHost.advances {holder : McpHolder} (held : w.holder = some holder) (fresh : JournalId)
    (now : Time) : host.next w (.advance fresh now) = some (host.advance w fresh now holder) := by
  rw [next, held]
  rfl

/-- A save has noted what it is about to write. -/
def McpFileStore.note (s : McpFileStore) (fresh : JournalId) (hash : Hash)
    (previousHash : Option Hash) : McpFileStore :=
  { s with journals := s.journals.put fresh { hash, previousHash, state := .prepared } }

/-- The store after a save that nobody disturbs. -/
def McpFileHost.saveText (host : McpFileHost) (s : McpFileStore) (text : List Char)
    (servers : List (String × McpEntry)) (previousHash : Option Hash) (fresh : JournalId) (now : Time) :
    McpFileStore :=
  { host.publishText (s.note fresh (host.digest text) previousHash) text servers (some fresh) now with
    status := some none }

/-- The store after a reload that finds a valid text. -/
def McpFileHost.reloadText (host : McpFileHost) (s : McpFileStore) (text : List Char)
    (servers : List (String × McpEntry)) (now : Time) : McpFileStore :=
  { host.publishText s text servers none now with status := some none }

/-- A reload of a valid text that nobody disturbs returns. -/
theorem McpFileHost.reload_returns {since : McpFileAction → Prop}
    (steps : ∀ fresh now, since (.advance fresh now)) {disk : McpDisk}
    (read : disk.read = .ok (some text)) (valid : host.validate text = .ok servers)
    (s : McpFileStore) (now : Time) :
    host.Reloads since { disk, store := s, holder := none } (some text)
      { disk, store := host.reloadText s text servers now, holder := none } := by
  let loading : McpFileWorld := { disk, store := s, holder := some .loading }
  let loaded : McpFileWorld := { disk, store := s, holder := some (.loaded text servers) }
  let reloaded : McpFileWorld :=
    { disk, store := host.publishText s text servers none now, holder := some (.reloaded text) }
  have reads : host.next loading (.advance 0 now) = some loaded := by
    rw [host.advances rfl, advance, read]
    dsimp only
    rw [valid]
  have publishes : host.next loaded (.advance 0 now) = some reloaded := by
    rw [host.advances rfl, advance, publish_of_read read]
  have first : (host.system.restrict fun _ a => since a).Path loading loaded :=
    .tail .refl ⟨steps 0 now, reads⟩
  have second : (host.system.restrict fun _ a => since a).Path loading reloaded :=
    first.tail ⟨steps 0 now, publishes⟩
  exact .found rfl second rfl (host.advances (w := reloaded) rfl 0 now)

/-- A save that nobody disturbs returns, and has published its text. -/
theorem McpFileHost.save_returns {disk : McpDisk} {current : Option (List Char)}
    (read : disk.read = .ok current) (valid : host.validate text = .ok servers) (s : McpFileStore)
    (fresh : JournalId) (now : Time) :
    host.system.Path { disk, store := s, holder := none }
      { disk := .file (encode text), holder := none
        store := host.saveText s text servers (current.map host.digest) fresh now } := by
  let noted := s.note fresh (host.digest text) (current.map host.digest)
  let free : McpFileWorld := { disk, store := s, holder := none }
  let comparing : McpFileWorld :=
    { free with holder := some (.comparing text servers (current.map host.digest)) }
  let expected : McpFileWorld := { free with holder := some (.expected text servers current) }
  let prepared : McpFileWorld :=
    { disk, store := noted, holder := some (.prepared text servers current fresh) }
  let compared : McpFileWorld :=
    { disk, store := noted, holder := some (.compared text servers fresh) }
  let replaced : McpFileWorld :=
    { disk := .file (encode text), store := noted, holder := some (.replaced text servers fresh) }
  let saved : McpFileWorld :=
    { replaced with
      store := host.publishText noted text servers (some fresh) now, holder := some .saved }
  have starts : host.next free (.save text (current.map host.digest)) = some comparing := by
    rw [next, valid]
  have compares : host.next comparing (.advance fresh now) = some expected := by
    rw [host.advances rfl, advance, read]
    exact congrArg some (if_pos rfl)
  have rereads : host.next prepared (.advance fresh now) = some compared := by
    rw [host.advances rfl, advance, read]
    exact congrArg some (if_pos rfl)
  have publishes : host.next replaced (.advance fresh now) = some saved := by
    rw [host.advances rfl, advance, publish_of_read (read_encode valid)]
  have before : host.system.Path free prepared :=
    ((System.Path.refl.tail starts).tail compares).tail (host.advances (w := expected) rfl fresh now)
  have after : host.system.Path free replaced :=
    (before.tail rereads).tail (host.advances (w := compared) rfl fresh now)
  exact (after.tail publishes).tail (host.advances (w := saved) rfl fresh now)

/-- When the text in effect is saved, its journal stays prepared, and a reload leaves it so. -/
theorem McpFileHost.saveText_unsettled (effective : s.effectiveHash = some (host.digest text))
    (previousHash : Option Hash) (fresh : JournalId) (now now' : Time) :
    ¬(host.reloadText (host.saveText s text servers previousHash fresh now) text servers
      now').Settled := by
  have noted : ¬(s.note fresh (host.digest text) previousHash).Settled := fun settled =>
    settled fresh _ ((Table.get?_put ..).trans (if_pos rfl)) rfl
  have saved : ¬(host.saveText s text servers previousHash fresh now).Settled := fun settled =>
    (host.publishText_settled _ text servers (some fresh) now).mp settled ⟨effective, noted⟩
  intro settled
  exact (host.publishText_settled _ text servers none now').mp settled
    ⟨host.effectiveHash_publishText .., saved⟩

/-! ## Every reload -/

/-- The file is published: the record, the servers and their profiles are the text's, and no save is left
prepared. -/
structure McpFileStore.Converged (host : McpFileHost) (s : McpFileStore) (text : List Char) : Prop where
  publishes : ∃ servers, host.validate text = .ok servers ∧ s.Publishes host text servers
  settled : s.Settled

/-- What is in effect is the same. -/
structure McpFileStore.Keeps (s s' : McpFileStore) : Prop where
  current : s'.current = s.current
  profiles : s'.profiles = s.profiles

/-- In every run, a reload that finds a valid text, whatever is edited meanwhile, leaves it published,
and no save prepared unless the text was in effect and a save was prepared; a reload that does not keeps
what was in effect.  Undisturbed, it finds the valid text that there is. -/
theorem reload_converges (collisionFree : Function.Injective host.digest) {found : Option (List Char)}
    (reachable : host.system.Reachable w)
    (reloads : host.Reloads McpFileAction.meantime w found w') :
    (∀ text, found = some text → (w'.store.Converged host text ↔
      ¬(w.store.effectiveHash = some (host.digest text) ∧ ¬w.store.Settled))) ∧
    (found = none → w.store.Keeps w'.store) ∧
    (∀ found' w'', host.Reloads McpFileAction.alone w found' w'' →
      ∀ text, found' = some text ↔ host.Finds w.disk text) := by
  refine ⟨?_, ?_, fun found' w'' alone text => alone.alone text⟩
  · rintro text rfl
    cases reloads with
    | found starts path held returns =>
        have during := McpFileHost.During.path (fun _ h => h) path (McpFileHost.During.start starts)
        rw [McpFileHost.During, held] at during
        obtain ⟨servers, now, valid, published⟩ := during
        obtain ⟨holder, held', rfl⟩ := Option.map_eq_some_iff.mp returns
        cases held.symm.trans held'
        have sound := (McpFileHost.sound_of_reachable collisionFree reachable).store
        have publishes := host.publishText_publishes collisionFree valid sound none now
        rw [← published] at publishes
        have settled := host.publishText_settled w.store text servers none now
        rw [← published] at settled
        exact ⟨fun converged => settled.mp converged.settled, fun sound =>
          ⟨⟨servers, valid, publishes.record, publishes.profiles⟩, settled.mpr sound⟩⟩
  · rintro rfl
    cases reloads with
    | refused starts path held returns =>
        have during := McpFileHost.During.path (fun _ h => h) path (McpFileHost.During.start starts)
        rw [McpFileHost.During, held] at during
        obtain ⟨holder, held', rfl⟩ := Option.map_eq_some_iff.mp returns
        cases held.symm.trans held'
        rw [← during]
        exact ⟨rfl, rfl⟩
    | blocked blocks =>
        obtain ⟨-, rfl⟩ := McpFileHost.blocked_eq blocks
        exact ⟨rfl, rfl⟩

namespace Sample

/-- A file with one server. -/
def mcpListing : List Char :=
  ("\x7b\"schema_version\":1,\"mcpServers\":\x7b\"local\":\x7b\"enabled\":true," ++
    "\"display_name\":\"L\",\"transport\":\"stdio\",\"command\":\"python\"\x7d\x7d\x7d").toList

def listed : List (String × JsonData) :=
  [("enabled", .bool true), ("display_name", .string "L"), ("transport", .string "stdio"),
    ("command", .string "python")]

def listingData : JsonData :=
  .object [("schema_version", .int 1), ("mcpServers", .object [("local", .object listed)])]

theorem listingData_distinct : listingData.Distinct := by
  refine .object _ (by decide) fun f hf => ?_
  rcases List.mem_cons.mp hf with rfl | hf
  · exact .int 1
  rcases List.mem_singleton.mp hf with rfl
  refine .object _ (by decide) fun f hf => ?_
  rcases List.mem_singleton.mp hf with rfl
  refine .object _ (by decide) fun f hf => ?_
  simp only [listed, List.mem_cons, List.not_mem_nil, or_false] at hf
  rcases hf with rfl | rfl | rfl | rfl
  · exact .bool true
  · exact .string "L"
  · exact .string "stdio"
  · exact .string "python"

def fileHost : McpFileHost where
  digest := String.ofList
  loads text := if text = mcpListing then .ok listingData else .error (.malformed 1 1)
  distinct text data h := by
    split at h
    · cases h
      exact listingData_distinct
    · cases h
  secretKey _ := false
  urlsplit _ := none
  fields identity
    | [("display_name", .string displayName), ("transport", .string "stdio"),
        ("command", .string command)] =>
        some { serverId := identity, displayName, transport := .stdio, command := some command }
    | _ => none

def listedServers : List (String × McpEntry) :=
  [("local", { enabled := true
               profile := { serverId := "local", displayName := "L", transport := .stdio
                            command := some "python" } })]

theorem listing_valid : fileHost.validate mcpListing = .ok listedServers := by
  have fits : (encode mcpListing).length ≤ 1048576 := by decide +kernel
  have loaded : fileHost.loads mcpListing = .ok listingData := by simp only [fileHost, if_true]
  rw [McpFileHost.validate, require_pos _ fits, loaded]
  rfl

theorem fileHost_collisionFree : Function.Injective fileHost.digest := by
  intro a b h
  exact String.ofList_injective h

/-- Nothing is published yet. -/
def unpublished : McpFileStore where
  profiles := .empty
  current := none
  journals := .empty
  status := none

/-- The text of the file is published. -/
def publishedStore : McpFileStore := fileHost.reloadText unpublished mcpListing listedServers 1

theorem unpublished_reachable : fileHost.system.Reachable
    { disk := .file (encode mcpListing), store := unpublished, holder := none } :=
  .init ⟨rfl, rfl⟩

theorem listing_reloads (s : McpFileStore) (now : Time) :
    fileHost.Reloads McpFileAction.meantime
      { disk := .file (encode mcpListing), store := s, holder := none } (some mcpListing)
      { disk := .file (encode mcpListing), holder := none
        store := fileHost.reloadText s mcpListing listedServers now } :=
  McpFileHost.reload_returns (fun _ _ => trivial) (McpFileHost.read_encode listing_valid)
    listing_valid s now

end Sample

theorem reload_converges_listing : Sample.publishedStore.Converged Sample.fileHost Sample.mcpListing ↔
    ¬(Sample.unpublished.effectiveHash = some (Sample.fileHost.digest Sample.mcpListing) ∧
      ¬Sample.unpublished.Settled) :=
  (reload_converges Sample.fileHost_collisionFree Sample.unpublished_reachable
    (Sample.listing_reloads Sample.unpublished 1)).1 Sample.mcpListing rfl

/-- The text in effect is saved again: its journal is still prepared when the file is reloaded. -/
theorem reload_leaves_prepared : ¬∀ host : McpFileHost, Function.Injective host.digest →
    ∀ w w' text, host.system.Reachable w → host.Reloads McpFileAction.meantime w (some text) w' →
      w'.store.Converged host text := by
  intro converges
  have valid := Sample.listing_valid
  have effective : Sample.publishedStore.effectiveHash = some (Sample.fileHost.digest Sample.mcpListing) :=
    Sample.fileHost.effectiveHash_publishText ..
  have reloaded := Sample.unpublished_reachable.path (Sample.listing_reloads Sample.unpublished 1).path
  have saved := reloaded.path
    (McpFileHost.save_returns (McpFileHost.read_encode valid) valid Sample.publishedStore 1 2)
  have converged := converges Sample.fileHost Sample.fileHost_collisionFree _ _ _ saved
    (Sample.listing_reloads _ 3)
  exact McpFileHost.saveText_unsettled effective _ 1 2 3 converged.settled

end MiHarness

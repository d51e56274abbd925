import MiHarness.Library.Trace
import MiHarness.Server.Pairing

/-!
# Who gets through

However tickets, requests and restarts of the server come between each other, a peer is let in ten times a
minute at most while a server runs (`pairing_limited`).  A request gets through the boundary only from an
allowed host and origin, and to the guarded paths only with a session that was made for a ticket or for the
machine itself, before it expires and before it is logged out; no ticket makes two (`requests_paired`).  A
ticket that has not been exchanged and has not expired pairs a browser, which gets through until its session
expires or is logged out (`ticket_pairs`).
-/

namespace MiHarness

open Library

variable {auth : AuthService}

/-! ## What the past says -/

/-- The attempts of a peer that were let in since the server started, the latest first. -/
def admissions (peer : String) : List AuthEvent → List Time
  | [] => []
  | .started :: _ => []
  | .admitted from' since :: log =>
      if from' = peer then since :: admissions peer log else admissions peer log
  | .issued .. :: log | .minted .. :: log | .loggedOut .. :: log | .passed .. :: log => admissions peer log

/-- The ticket that an event has exchanged. -/
def AuthEvent.exchanged : AuthEvent → Option Hash
  | .minted _ _ ticket _ _ => ticket
  | _ => none

/-- A session is made of something that allows it. -/
structure AuthSession.Minted (auth : AuthService) (earlier : List AuthEvent) (key : Hash)
    (record : AuthSession) (ticket : Option Hash) (peer : String) (since : Time) : Prop where
  admitted : earlier.head? = some (.admitted peer since)
  new : ∀ record' ticket' peer' since', .minted key record' ticket' peer' since' ∉ earlier
  current : record.revoked = false ∧ record.expiresAt = since + auth.sessionTtl
  exchanged : ∀ t ∈ ticket, record.source = .ticketExchange ∧ (∀ e ∈ earlier, e.exchanged ≠ some t) ∧
    ∃ issued, .issued t issued ∈ earlier ∧ issued.ownerId = record.ownerId ∧
      (since : Int) < issued.expiresAt
  loopback : ticket = none → record.source = .loopbackAuto ∧ auth.isLoopback peer = some true ∧
    record.ownerId = auth.ownerId

/-- What a request has that gets through the boundary. -/
structure HttpRequest.Passes (auth : AuthService) (earlier : List AuthEvent) (r : HttpRequest)
    (owner : Option OwnerId) (now : Time) : Prop where
  host : r.host ∈ auth.allowedHosts
  origin : ∀ origin ∈ r.origin, origin ∈ auth.allowedOrigins
  writes : r.writes = true → r.origin.isSome
  unguarded : r.guarded = false → owner = none
  guarded : r.guarded = true → ∃ token record ticket peer since, r.session = some token ∧
    .minted (auth.digest token) record ticket peer since ∈ earlier ∧ owner = some record.ownerId ∧
    now < record.expiresAt ∧ .loggedOut (auth.digest token) ∉ earlier ∧
    (r.writes = true → ∃ csrf, r.csrf = some csrf ∧ auth.digest csrf = record.csrfHash)

/-- What was before an event allows it. -/
def AuthEvent.Justified (auth : AuthService) (earlier : List AuthEvent) : AuthEvent → Prop
  | .minted key record ticket peer since => record.Minted auth earlier key ticket peer since
  | .passed r owner now => r.Passes auth earlier owner now
  | .started | .issued .. | .admitted .. | .loggedOut .. => True

/-- The tickets agree with what has been done. -/
structure TicketsSound (tickets : Records Hash AuthTicket) (log : List AuthEvent) : Prop where
  issued : ∀ key record, tickets.get key = some record → ∃ issued, .issued key issued ∈ log ∧
    issued.ownerId = record.ownerId ∧ issued.expiresAt = record.expiresAt
  unexchanged : ∀ key record, tickets.get key = some record → record.consumed = false →
    ∀ e ∈ log, e.exchanged ≠ some key
  held : ∀ key issued, .issued key issued ∈ log → ∃ record, tickets.get key = some record ∧
    record.ownerId = issued.ownerId ∧ record.expiresAt = issued.expiresAt ∧
    (record.consumed = true → ∃ e ∈ log, e.exchanged = some key)
  known : ∀ key, ∀ e ∈ log, e.exchanged = some key → tickets.get key ≠ none

/-- The sessions agree with what has been done. -/
structure SessionsSound (sessions : Records Hash AuthSession) (log : List AuthEvent) : Prop where
  minted : ∀ key record, sessions.get key = some record → ∃ minted ticket peer since,
    .minted key minted ticket peer since ∈ log ∧ record = { minted with revoked := record.revoked } ∧
    (record.revoked = false ↔ .loggedOut key ∉ log)
  known : ∀ key record ticket peer since, .minted key record ticket peer since ∈ log →
    ∃ found, sessions.get key = some found ∧ found = { record with revoked := found.revoked }
  left : ∀ key, .loggedOut key ∈ log → sessions.get key ≠ none

/-- The state agrees with what has been done. -/
structure AuthState.Sound (auth : AuthService) (s : AuthState) (now : Time) : Prop where
  tickets : TicketsSound s.tickets s.log
  sessions : SessionsSound s.sessions s.log
  attempts : ∀ peer, pairingWindow.Sound (admissions peer s.log) (s.attempts peer) now
  justified : Each (AuthEvent.Justified auth) s.log

/-! ## Tickets -/

namespace TicketsSound

variable {tickets : Records Hash AuthTicket} {log : List AuthEvent}

/-- An event that neither issues a ticket nor exchanges one. -/
theorem skip (sound : TicketsSound tickets log) {e : AuthEvent}
    (issues : ∀ key record, e ≠ .issued key record) (exchanges : e.exchanged = none) :
    TicketsSound tickets (e :: log) where
  issued key record found := by
    obtain ⟨issued, logged, same⟩ := sound.issued key record found
    exact ⟨issued, List.mem_cons_of_mem _ logged, same⟩
  unexchanged key record found unconsumed := by
    refine List.forall_mem_cons.mpr ⟨?_, sound.unexchanged key record found unconsumed⟩
    rw [exchanges]
    exact (Option.some_ne_none _).symm
  held key issued logged := by
    rcases List.mem_cons.mp logged with same | logged
    · exact absurd same.symm (issues key issued)
    · obtain ⟨record, found, owner, expires, consumed⟩ := sound.held key issued logged
      refine ⟨record, found, owner, expires, fun h => ?_⟩
      obtain ⟨e', he', exchanged⟩ := consumed h
      exact ⟨e', List.mem_cons_of_mem _ he', exchanged⟩
  known key := by
    refine List.forall_mem_cons.mpr ⟨fun same => ?_, sound.known key⟩
    rw [exchanges] at same
    cases same

/-- A ticket is issued under a digest that is not in use. -/
theorem issues (sound : TicketsSound tickets log) {key : Hash} (fresh : tickets.get key = none)
    {record : AuthTicket} (new : record.consumed = false) :
    TicketsSound (tickets.write key record) (.issued key record :: log) where
  issued key' record' found := by
    rw [Records.get_write] at found
    split at found
    case isTrue same =>
      cases found
      exact ⟨record, same ▸ List.mem_cons_self .., rfl, rfl⟩
    case isFalse =>
      obtain ⟨issued, logged, same⟩ := sound.issued key' record' found
      exact ⟨issued, List.mem_cons_of_mem _ logged, same⟩
  unexchanged key' record' found unconsumed := by
    refine List.forall_mem_cons.mpr ⟨(Option.some_ne_none key').symm, fun e he => ?_⟩
    rw [Records.get_write] at found
    split at found
    case isTrue same => exact fun exchanged => sound.known key' e he exchanged (same ▸ fresh)
    case isFalse => exact sound.unexchanged key' record' found unconsumed e he
  held key' issued logged := by
    rw [Records.get_write]
    rcases List.mem_cons.mp logged with same | logged
    · cases same
      rw [if_pos rfl]
      exact ⟨record, rfl, rfl, rfl, fun consumed => by rw [new] at consumed; cases consumed⟩
    · obtain ⟨record', found, owner, expires, consumed⟩ := sound.held key' issued logged
      rw [if_neg fun same => by rw [same, fresh] at found; cases found]
      refine ⟨record', found, owner, expires, fun h => ?_⟩
      obtain ⟨e, he, exchanged⟩ := consumed h
      exact ⟨e, List.mem_cons_of_mem _ he, exchanged⟩
  known key' := by
    refine List.forall_mem_cons.mpr ⟨fun same => absurd same.symm (Option.some_ne_none key'), ?_⟩
    intro e he exchanged
    rw [Records.get_write]
    split
    · exact Option.some_ne_none _
    · exact sound.known key' e he exchanged

/-- A ticket is exchanged. -/
theorem exchanges (sound : TicketsSound tickets log) {key : Hash} {record : AuthTicket}
    (found : tickets.get key = some record) {session : Hash} {minted : AuthSession} {peer : String}
    {since : Time} : TicketsSound (tickets.write key { record with consumed := true })
      (.minted session minted (some key) peer since :: log) where
  issued key' record' found' := by
    rw [Records.get_write] at found'
    split at found'
    case isTrue same =>
      cases found'
      obtain ⟨issued, logged, same'⟩ := sound.issued key record found
      exact ⟨issued, List.mem_cons_of_mem _ (same ▸ logged), same'⟩
    case isFalse =>
      obtain ⟨issued, logged, same⟩ := sound.issued key' record' found'
      exact ⟨issued, List.mem_cons_of_mem _ logged, same⟩
  unexchanged key' record' found' unconsumed := by
    rw [Records.get_write] at found'
    split at found'
    case isTrue =>
      cases found'
      cases unconsumed
    case isFalse other =>
      refine List.forall_mem_cons.mpr ⟨fun same => ?_, sound.unexchanged key' record' found' unconsumed⟩
      exact other (Option.some.inj same).symm
  held key' issued logged := by
    rcases List.mem_cons.mp logged with same | logged
    · cases same
    · obtain ⟨record', found', owner, expires, consumed⟩ := sound.held key' issued logged
      rw [Records.get_write]
      split
      case isTrue same =>
        rw [same, found] at found'
        cases found'
        exact ⟨_, rfl, owner, expires, fun _ => ⟨_, List.mem_cons_self .., congrArg some same.symm⟩⟩
      case isFalse =>
        refine ⟨record', found', owner, expires, fun h => ?_⟩
        obtain ⟨e, he, exchanged⟩ := consumed h
        exact ⟨e, List.mem_cons_of_mem _ he, exchanged⟩
  known key' e he exchanged := by
    rw [Records.get_write]
    split
    · exact Option.some_ne_none _
    case isFalse other =>
      rcases List.mem_cons.mp he with rfl | he
      · exact absurd (Option.some.inj exchanged).symm other
      · exact sound.known key' e he exchanged

end TicketsSound

/-! ## Sessions -/

namespace SessionsSound

variable {sessions : Records Hash AuthSession} {log : List AuthEvent}

theorem loggedOut_cons {e : AuthEvent} {key : Hash} (other : e ≠ .loggedOut key) :
    .loggedOut key ∉ e :: log ↔ .loggedOut key ∉ log := by
  rw [List.mem_cons, not_or]
  exact ⟨And.right, fun h => ⟨other.symm, h⟩⟩

/-- An event that neither makes a session nor ends one. -/
theorem skip (sound : SessionsSound sessions log) {e : AuthEvent}
    (mints : ∀ key record ticket peer since, e ≠ .minted key record ticket peer since)
    (leaves : ∀ key, e ≠ .loggedOut key) : SessionsSound sessions (e :: log) where
  minted key record found := by
    obtain ⟨minted, ticket, peer, since, logged, same, current⟩ := sound.minted key record found
    refine ⟨minted, ticket, peer, since, List.mem_cons_of_mem _ logged, same, ?_⟩
    exact current.trans (loggedOut_cons (leaves key)).symm
  known key record ticket peer since logged := by
    rcases List.mem_cons.mp logged with same | logged
    · exact absurd same.symm (mints _ _ _ _ _)
    · exact sound.known key record ticket peer since logged
  left key out := by
    rcases List.mem_cons.mp out with out | out
    · exact absurd out.symm (leaves key)
    · exact sound.left key out

/-- A session is made under a digest that is not in use. -/
theorem mints (sound : SessionsSound sessions log) {key : Hash} (fresh : sessions.get key = none)
    {record : AuthSession} (new : record.revoked = false) {ticket : Option Hash} {peer : String}
    {since : Time} :
    SessionsSound (sessions.write key record) (.minted key record ticket peer since :: log) where
  minted key' record' found := by
    rw [Records.get_write] at found
    split at found
    case isTrue same =>
      cases found
      subst same
      refine ⟨record, ticket, peer, since, List.mem_cons_self .., rfl, ?_⟩
      have active : record.revoked = false ↔ .loggedOut key' ∉ log :=
        iff_of_true new fun out => sound.left key' out fresh
      exact active.trans (loggedOut_cons (by simp)).symm
    case isFalse =>
      obtain ⟨minted, ticket', peer', since', logged, same, current⟩ := sound.minted key' record' found
      refine ⟨minted, ticket', peer', since', List.mem_cons_of_mem _ logged, same, ?_⟩
      exact current.trans (loggedOut_cons (by simp)).symm
  known key' record' ticket' peer' since' logged := by
    rw [Records.get_write]
    rcases List.mem_cons.mp logged with same | logged
    · cases same
      exact ⟨record, if_pos rfl, rfl⟩
    · obtain ⟨found, present, same⟩ := sound.known key' record' ticket' peer' since' logged
      rw [if_neg fun used => by rw [used, fresh] at present; cases present]
      exact ⟨found, present, same⟩
  left key' out := by
    rw [Records.get_write]
    split
    · exact Option.some_ne_none _
    · rcases List.mem_cons.mp out with out | out
      · cases out
      · exact sound.left key' out

/-- A session is ended. -/
theorem leaves (sound : SessionsSound sessions log) {key : Hash} {record : AuthSession}
    (found : sessions.get key = some record) :
    SessionsSound (sessions.write key { record with revoked := true }) (.loggedOut key :: log) where
  minted key' record' found' := by
    rw [Records.get_write] at found'
    split at found'
    case isTrue same =>
      cases found'
      obtain ⟨minted, ticket, peer, since, logged, same', -⟩ := sound.minted key record found
      refine ⟨minted, ticket, peer, since, List.mem_cons_of_mem _ (same ▸ logged), ?_, ?_⟩
      · rw [same']
      · exact iff_of_false (fun same => by cases same) fun out => out (same ▸ List.mem_cons_self ..)
    case isFalse other =>
      obtain ⟨minted, ticket, peer, since, logged, same, current⟩ := sound.minted key' record' found'
      refine ⟨minted, ticket, peer, since, List.mem_cons_of_mem _ logged, same, ?_⟩
      exact current.trans (loggedOut_cons fun out => other (AuthEvent.loggedOut.inj out).symm).symm
  known key' record' ticket peer since logged := by
    rcases List.mem_cons.mp logged with same | logged
    · cases same
    · obtain ⟨found', present, same⟩ := sound.known key' record' ticket peer since logged
      rw [Records.get_write]
      split
      case isTrue own =>
        rw [own, found, Option.some.injEq] at present
        refine ⟨_, rfl, ?_⟩
        rw [present, same]
      case isFalse => exact ⟨found', present, same⟩
  left key' out := by
    rw [Records.get_write]
    split
    · exact Option.some_ne_none _
    case isFalse other =>
      rcases List.mem_cons.mp out with out | out
      · cases out
        exact absurd rfl other
      · exact sound.left key' out

/-- A session that has not been logged out is as it was made. -/
theorem current (sound : SessionsSound sessions log) {key : Hash} {record : AuthSession}
    {ticket : Option Hash} {peer : String} {since : Time}
    (logged : .minted key record ticket peer since ∈ log) (active : .loggedOut key ∉ log) :
    sessions.get key = some { record with revoked := false } := by
  obtain ⟨found, present, same⟩ := sound.known key record ticket peer since logged
  obtain ⟨_, _, _, _, -, -, revoked⟩ := sound.minted key found present
  rw [present, same, revoked.mpr active]

/-- A digest that is not in use is of no session that was made. -/
theorem unminted (sound : SessionsSound sessions log) {key : Hash} (fresh : sessions.get key = none)
    (record : AuthSession) (ticket : Option Hash) (peer : String) (since : Time) :
    .minted key record ticket peer since ∉ log := by
  intro logged
  obtain ⟨found, present, -⟩ := sound.known key record ticket peer since logged
  rw [fresh] at present
  cases present

end SessionsSound

/-! ## The pieces -/

namespace AuthState

variable {s : AuthState} {now now' : Time}

theorem Sound.tick (sound : s.Sound auth now) (later : now ≤ now') : s.Sound auth now' where
  tickets := sound.tickets
  sessions := sound.sessions
  attempts peer := (sound.attempts peer).tick later
  justified := sound.justified

/-- An event that changes no table, and is no attempt. -/
theorem Sound.passes (sound : s.Sound auth now) {r : HttpRequest} {owner : Option OwnerId}
    (passes : r.Passes auth s.log owner now) :
    Sound auth { s with log := .passed r owner now :: s.log } now where
  tickets := sound.tickets.skip nofun rfl
  sessions := sound.sessions.skip nofun nofun
  attempts := sound.attempts
  justified := sound.justified.cons passes

/-- The server starts, and has forgotten the attempts. -/
theorem Sound.starts (sound : s.Sound auth now) :
    Sound auth { s with attempts := fun _ => [], log := .started :: s.log } now where
  tickets := sound.tickets.skip nofun rfl
  sessions := sound.sessions.skip nofun nofun
  attempts _ := Window.Sound.nil now
  justified := sound.justified.cons trivial

end AuthState

section Pieces

variable {s : AuthState} {now : Time} {draws : AuthDraws}

theorem AuthService.issueTicket_wp (sound : s.Sound auth now) (ttlSeconds : Int)
    (fresh : s.tickets.get (auth.digest draws.ticket) = none) :
    wp (auth.issueTicket ttlSeconds draws now) (fun _ t => t.Sound auth now) (fun _ _ => False) s := by
  rw [AuthService.issueTicket, wp_bind, wp_modify, note, wp_modify]
  exact {
    tickets := sound.tickets.issues fresh rfl
    sessions := sound.sessions.skip nofun nofun
    attempts := sound.attempts
    justified := sound.justified.cons trivial }

/-- An attempt is noted when it is let in, and changes no table. -/
theorem AuthService.admit_wp (sound : s.Sound auth now) (peer : String) :
    wp (AuthService.admitPeer peer now)
      (fun _ t => t.Sound auth now ∧ t.tickets = s.tickets ∧ t.sessions = s.sessions ∧
        t.log = .admitted peer now :: s.log)
      (fun _ t => t.Sound auth now) s := by
  rw [AuthService.admitPeer, wp_bind, wp_get]
  have attempt := (sound.attempts peer).attempt
  generalize pairingWindow.attempt (s.attempts peer) now = result at attempt ⊢
  obtain ⟨recent, admitted⟩ := result
  rw [wp_bind, wp_modify]
  -- What the server remembers of the other peers stays.
  have remembers {log : List AuthEvent}
      (same : ∀ other, other ≠ peer → admissions other log = admissions other s.log)
      (here : pairingWindow.Sound (admissions peer log) recent now) (other : String) :
      pairingWindow.Sound (admissions other log) (Function.update s.attempts peer recent other) now := by
    by_cases h : other = peer
    · subst h
      rwa [Function.update_self]
    · rw [Function.update_of_ne h, same other h]
      exact sound.attempts other
  refine wp_ensure_bind (fun refused => ?_) fun passes => ?_
  · rw [if_neg refused] at attempt
    exact { sound with attempts := remembers (fun _ _ => rfl) attempt }
  · rw [if_pos passes] at attempt
    rw [note, wp_modify]
    refine ⟨?_, rfl, rfl, rfl⟩
    exact {
      tickets := sound.tickets.skip nofun rfl
      sessions := sound.sessions.skip nofun nofun
      attempts := remembers (fun other h => if_neg (Ne.symm h)) (by rwa [admissions, if_pos rfl])
      justified := sound.justified.cons trivial }

theorem AuthService.exchange_wp (sound : s.Sound auth now) (ticket peer : String)
    (fresh : s.sessions.get (auth.digest draws.session) = none) :
    wp (auth.exchange ticket peer draws now) (fun _ t => t.Sound auth now)
      (fun _ t => t.Sound auth now) s := by
  rw [AuthService.exchange, wp_bind]
  refine (AuthService.admit_wp sound peer).mono (fun _ t admitted => ?_) fun _ _ sound => sound
  obtain ⟨sound, -, sessions, log⟩ := admitted
  rw [← sessions] at fresh
  rw [wp_bind, wp_get]
  refine wp_raising_bind (fun _ _ => sound) fun record found => ?_
  have found := orThrow_eq_ok.mp found
  refine wp_ensure_bind (fun _ => sound) fun valid => ?_
  rw [wp_bind, wp_modify, wp_bind, AuthService.createSession, wp_bind, wp_modify, wp_pure, note, wp_modify]
  exact {
    tickets := sound.tickets.exchanges found
    sessions := sound.sessions.mints fresh rfl
    attempts := sound.attempts
    justified := sound.justified.cons {
      admitted := by rw [log]; rfl
      new := sound.sessions.unminted fresh
      current := ⟨rfl, rfl⟩
      exchanged := fun key same => by
        cases same
        obtain ⟨issued, logged, owner, expires⟩ := sound.tickets.issued _ _ found
        exact ⟨rfl, sound.tickets.unexchanged _ _ found valid.1, issued, logged, owner, expires ▸ valid.2⟩
      loopback := nofun } }

theorem AuthService.exchangeLocal_wp (sound : s.Sound auth now) (peer : String)
    (fresh : s.sessions.get (auth.digest draws.session) = none) :
    wp (auth.exchangeLocal peer draws now) (fun _ t => t.Sound auth now) (fun _ t => t.Sound auth now) s := by
  rw [AuthService.exchangeLocal]
  refine wp_ensure_bind (fun _ => sound) fun loopback => ?_
  rw [wp_bind]
  refine (AuthService.admit_wp sound peer).mono (fun _ t admitted => ?_) fun _ _ sound => sound
  obtain ⟨sound, -, sessions, log⟩ := admitted
  rw [← sessions] at fresh
  rw [wp_bind, AuthService.createSession, wp_bind, wp_modify, wp_pure, note, wp_modify]
  exact {
    tickets := sound.tickets.skip nofun rfl
    sessions := sound.sessions.mints fresh rfl
    attempts := sound.attempts
    justified := sound.justified.cons {
      admitted := by rw [log]; rfl
      new := sound.sessions.unminted fresh
      current := ⟨rfl, rfl⟩
      exchanged := nofun
      loopback := fun _ => ⟨rfl, loopback, rfl⟩ } }

theorem AuthService.authenticate_wp (token : Option String) :
    wp (auth.authenticate token now)
      (fun record t => t = s ∧ ∃ given, token = some given ∧
        s.sessions.get (auth.digest given) = some record ∧ record.revoked = false ∧ now < record.expiresAt)
      (fun _ t => t = s) s := by
  rw [AuthService.authenticate]
  refine wp_raising_bind (fun _ _ => rfl) fun given named => ?_
  rw [wp_bind, wp_get]
  refine wp_raising_bind (fun _ _ => rfl) fun record found => ?_
  refine wp_ensure_bind (fun _ => rfl) fun current => ?_
  have given := (Option.filter_eq_some_iff.mp (orThrow_eq_ok.mp named)).1
  exact ⟨rfl, _, given, orThrow_eq_ok.mp found, current⟩

theorem AuthService.checkCsrf_wp (record : AuthSession) (token : Option String) :
    wp (auth.checkCsrf record token)
      (fun _ t => t = s ∧ ∃ given, token = some given ∧ record.csrfHash = auth.digest given)
      (fun _ t => t = s) s := by
  rw [AuthService.checkCsrf]
  refine wp_raising_bind (fun _ _ => rfl) fun given named => ?_
  refine wp_ensure (fun _ => rfl) fun same => ⟨rfl, given, ?_, same⟩
  exact (Option.filter_eq_some_iff.mp (orThrow_eq_ok.mp named)).1

theorem AuthService.logout_wp (sound : s.Sound auth now) (token : String) :
    wp (auth.logout token now) (fun _ t => t.Sound auth now) (fun _ t => t.Sound auth now) s := by
  rw [AuthService.logout, wp_bind]
  refine (AuthService.authenticate_wp _).mono (fun record t read => ?_) fun _ _ same => same ▸ sound
  obtain ⟨rfl, given, same, found, -⟩ := read
  cases same
  rw [wp_bind, wp_modify, note, wp_modify]
  exact {
    tickets := sound.tickets.skip nofun rfl
    sessions := sound.sessions.leaves found
    attempts := sound.attempts
    justified := sound.justified.cons trivial }

theorem AuthService.boundary_wp (sound : s.Sound auth now) (r : HttpRequest) :
    wp (auth.boundary r now) (fun owner t => t = s ∧ r.Passes auth s.log owner now) (fun _ t => t = s) s := by
  rw [AuthService.boundary]
  refine wp_ensure_bind (fun _ => rfl) fun host => ?_
  refine wp_ensure_bind (fun _ => rfl) fun origin => ?_
  refine wp_ensure_bind (fun _ => rfl) fun writes => ?_
  have allowed : ∀ o ∈ r.origin, o ∈ auth.allowedOrigins := by
    simpa [Option.all_eq_true] using origin
  have some' (h : r.writes = true) : r.origin.isSome := by
    obtain ⟨o, given, -⟩ := (Option.any_eq_true ..).mp (writes h)
    rw [given]
    rfl
  split
  case isFalse unguarded =>
    refine ⟨rfl, host, allowed, some', fun _ => rfl, fun guarded => absurd guarded unguarded⟩
  case isTrue guarded =>
    rw [wp_bind]
    refine (AuthService.authenticate_wp _).mono (fun record t read => ?_) fun _ _ same => same
    obtain ⟨rfl, token, given, found, current, early⟩ := read
    obtain ⟨minted, ticket, peer, since, logged, same, stays⟩ := sound.sessions.minted _ _ found
    have passes
        (csrf : r.writes = true → ∃ csrf, r.csrf = some csrf ∧ auth.digest csrf = minted.csrfHash) :
        r.Passes auth t.log (some record.ownerId) now := by
      refine ⟨host, allowed, some', fun h => ?_, fun _ => ?_⟩
      · rw [guarded] at h
        cases h
      · rw [same] at early ⊢
        exact ⟨token, minted, ticket, peer, since, given, logged, rfl, early, stays.mp current, csrf⟩
    split
    case isTrue =>
      rw [wp_bind]
      refine (AuthService.checkCsrf_wp _ _).mono (fun _ u checked => ?_) fun _ _ same => same
      obtain ⟨rfl, csrf, given, hash⟩ := checked
      rw [same] at hash
      exact ⟨rfl, passes fun _ => ⟨csrf, given, hash.symm⟩⟩
    case isFalse reads => exact ⟨rfl, passes fun writes => absurd writes reads⟩

theorem AuthService.handle_wp (sound : s.Sound auth now) (r : HttpRequest)
    (fresh : s.sessions.get (auth.digest draws.session) = none) :
    wp (auth.handle r draws now) (fun _ t => t.Sound auth now) (fun _ t => t.Sound auth now) s := by
  rw [AuthService.handle]
  cases r.route with
  | exchange ticket => exact AuthService.exchange_wp sound ticket r.peer fresh
  | exchangeLocal => exact AuthService.exchangeLocal_wp sound r.peer fresh
  | session =>
      rw [wp_bind]
      refine (AuthService.authenticate_wp _).mono (fun record t read => ?_) fun _ _ same => same ▸ sound
      obtain ⟨rfl, -⟩ := read
      exact (AuthService.checkCsrf_wp _ _).mono (fun _ _ checked => checked.1 ▸ sound)
        fun _ _ same => same ▸ sound
  | logout => exact wp_raising_bind (fun _ _ => sound) fun token _ => AuthService.logout_wp sound token
  | other => exact sound

end Pieces

/-! ## Runs -/

theorem wp.leaves {α : Type} {x : AuthM α} {Q : AuthState → Prop} {s : AuthState}
    (h : wp x (fun _ t => Q t) (fun _ t => Q t) s) : Q (x.leaves s) := by
  unfold AuthM.leaves
  cases hx : x s with
  | ok a t => exact h.of_ok hx
  | error e t => exact h.of_error hx

theorem AuthWorld.sound {w : AuthWorld} (reachable : (authSystem auth).Reachable w) :
    w.state.Sound auth w.now := by
  refine reachable.invariant (I := fun w => w.state.Sound auth w.now) (fun w start => ?_)
    fun w a w' _ sound step => ?_
  · cases (show w = {} from start)
    exact {
      tickets := ⟨nofun, nofun, nofun, nofun⟩
      sessions := ⟨nofun, nofun, nofun⟩
      attempts := fun _ => Window.Sound.nil 0
      justified := Each.nil }
  · obtain ⟨sane, next⟩ := step
    cases a with
    | tick now =>
        cases next
        exact sound.tick sane
    | issue ttlSeconds draws =>
        cases next
        exact wp.leaves ((AuthService.issueTicket_wp sound ttlSeconds sane).mono (fun _ _ h => h) nofun)
    | request i r =>
        unfold System.ofNext AuthWorld.next at next
        dsimp only at next
        split at next
        case h_1 => cases next
        case h_2 =>
          have does := AuthService.boundary_wp sound r
          split at next
          case h_1 owner s ran =>
            cases next
            obtain ⟨rfl, passes⟩ := does.of_ok ran
            exact sound.passes passes
          case h_2 e s ran =>
            cases next
            obtain rfl := does.of_error ran
            exact sound
    | handle i draws =>
        unfold System.ofNext AuthWorld.next at next
        dsimp only at next
        split at next
        case h_1 => cases next
        case h_2 r _ =>
          cases next
          exact wp.leaves (AuthService.handle_wp sound r sane)
    | drop i =>
        cases next
        exact sound
    | restart =>
        cases next
        exact sound.starts

/-- While a server runs, it lets a peer in at most ten times in any minute. -/
theorem pairing_limited {w : AuthWorld} (reachable : (authSystem auth).Reachable w) (peer : String)
    (since : Time) :
    ((admissions peer w.state.log).filter fun t => since ≤ t ∧ t ≤ since + 60).length ≤ 10 := by
  have sound := (AuthWorld.sound reachable).attempts peer
  refine sound.burst (show 0 < 10 by decide) List.filter_sublist ?_
  refine List.pairwise_of_forall_mem_list fun t ht t' ht' => ?_
  have within := of_decide_eq_true (List.mem_filter.mp ht).2
  have within' := of_decide_eq_true (List.mem_filter.mp ht').2
  exact decide_eq_false (Nat.not_lt.mpr (Nat.le_trans within.2 (Nat.add_le_add_right within'.1 60)))

/-- What gets through the boundary has a session, and what gets a session has a ticket or is on the machine. -/
theorem requests_paired {w : AuthWorld} (reachable : (authSystem auth).Reachable w) :
    (∀ later r owner now earlier, w.state.log = later ++ .passed r owner now :: earlier →
      r.Passes auth earlier owner now) ∧
    ∀ later key record ticket peer since earlier,
      w.state.log = later ++ .minted key record ticket peer since :: earlier →
        record.Minted auth earlier key ticket peer since := by
  have justified := (AuthWorld.sound reachable).justified
  exact ⟨fun _ _ _ _ _ split => justified _ _ _ split, fun _ _ _ _ _ _ _ split => justified _ _ _ split⟩

/-! ## Pairing -/

/-- What has been done stays done. -/
def AuthState.Grows (s t : AuthState) : Prop := s.log <:+ t.log

namespace AuthState

theorem Grows.refl (s : AuthState) : s.Grows s := List.suffix_refl _

theorem Grows.trans {s t u : AuthState} (first : s.Grows t) (later : t.Grows u) : s.Grows u :=
  List.IsSuffix.trans first later

theorem Grows.bind {α β : Type} {x : AuthM α} {f : α → AuthM β} (first : Moves Grows x)
    (later : ∀ a, Moves Grows (f a)) : Moves Grows (x >>= f) :=
  Moves.bind (R := Grows) Grows.trans first later

end AuthState

open AuthState

section Growing

variable {now : Time} {draws : AuthDraws}

theorem note_grows (e : AuthEvent) : Moves Grows (note e) :=
  Moves.modify fun s => List.suffix_cons e s.log

theorem AuthService.issueTicket_grows (ttlSeconds : Int) :
    Moves Grows (auth.issueTicket ttlSeconds draws now) :=
  Grows.bind (Moves.modify fun s => Grows.refl s) fun _ => note_grows _

theorem AuthService.admitPeer_grows (peer : String) : Moves Grows (AuthService.admitPeer peer now) := by
  refine Grows.bind (Moves.get Grows.refl) fun s => ?_
  generalize pairingWindow.attempt (s.attempts peer) now = result
  obtain ⟨recent, admitted⟩ := result
  refine Grows.bind (Moves.modify fun s => Grows.refl s) fun _ => ?_
  exact Grows.bind (Moves.ensure Grows.refl _ _) fun _ => note_grows _

theorem AuthService.createSession_grows (owner : OwnerId) (source : SessionSource) :
    Moves Grows (auth.createSession owner now source draws) :=
  Grows.bind (Moves.modify fun s => Grows.refl s) fun _ => Moves.pure Grows.refl _

theorem AuthService.exchange_grows (ticket peer : String) :
    Moves Grows (auth.exchange ticket peer draws now) := by
  refine Grows.bind (AuthService.admitPeer_grows peer) fun _ => ?_
  refine Grows.bind (Moves.get Grows.refl) fun s => ?_
  refine Grows.bind (Moves.raising Grows.refl _) fun record => ?_
  refine Grows.bind (Moves.ensure Grows.refl _ _) fun _ => ?_
  refine Grows.bind (Moves.modify fun s => Grows.refl s) fun _ => ?_
  exact Grows.bind (AuthService.createSession_grows _ _) fun _ => note_grows _

theorem AuthService.exchangeLocal_grows (peer : String) :
    Moves Grows (auth.exchangeLocal peer draws now) := by
  refine Grows.bind (Moves.ensure Grows.refl _ _) fun _ => ?_
  refine Grows.bind (AuthService.admitPeer_grows peer) fun _ => ?_
  exact Grows.bind (AuthService.createSession_grows _ _) fun _ => note_grows _

theorem AuthService.authenticate_grows (token : Option String) :
    Moves Grows (auth.authenticate token now) := by
  intro s
  exact (AuthService.authenticate_wp token).mono (fun _ t read => read.1 ▸ Grows.refl s)
    fun _ t same => same ▸ Grows.refl s

theorem AuthService.checkCsrf_grows (record : AuthSession) (token : Option String) :
    Moves Grows (auth.checkCsrf record token) := by
  intro s
  exact (AuthService.checkCsrf_wp record token).mono (fun _ t read => read.1 ▸ Grows.refl s)
    fun _ t same => same ▸ Grows.refl s

theorem AuthService.handle_grows (r : HttpRequest) : Moves Grows (auth.handle r draws now) := by
  rw [AuthService.handle]
  cases r.route with
  | exchange ticket => exact AuthService.exchange_grows ticket r.peer
  | exchangeLocal => exact AuthService.exchangeLocal_grows r.peer
  | session =>
      exact Grows.bind (AuthService.authenticate_grows _) fun _ =>
        AuthService.checkCsrf_grows _ _
  | logout =>
      refine Grows.bind (Moves.raising Grows.refl _) fun token => ?_
      refine Grows.bind (AuthService.authenticate_grows _) fun _ => ?_
      exact Grows.bind (Moves.modify fun s => Grows.refl s) fun _ => note_grows _
  | other => exact Moves.pure Grows.refl _

theorem AuthWorld.grows {w w' : AuthWorld} {a : AuthAction} (sound : w.state.Sound auth w.now)
    (next : w.next auth a = some w') : w.state.Grows w'.state := by
  cases a with
  | tick now =>
      cases next
      exact Grows.refl _
  | issue ttlSeconds draws =>
      cases next
      exact wp.leaves (AuthService.issueTicket_grows ttlSeconds w.state)
  | request i r =>
      unfold AuthWorld.next at next
      dsimp only at next
      split at next
      case h_1 => cases next
      case h_2 =>
        have does := AuthService.boundary_wp sound r
        split at next
        case h_1 owner s ran =>
          cases next
          obtain ⟨rfl, -⟩ := does.of_ok ran
          exact List.suffix_cons _ _
        case h_2 e s ran =>
          cases next
          obtain rfl := does.of_error ran
          exact Grows.refl _
  | handle i draws =>
      unfold AuthWorld.next at next
      dsimp only at next
      split at next
      case h_1 => cases next
      case h_2 r _ =>
        cases next
        exact wp.leaves (AuthService.handle_grows r w.state)
  | drop i =>
      cases next
      exact Grows.refl _
  | restart =>
      cases next
      exact List.suffix_cons _ _

/-- What has been done by a state has been done by every later one. -/
theorem AuthWorld.done_stays {w w' : AuthWorld} (reachable : (authSystem auth).Reachable w)
    (path : (authSystem auth).Path w w') {e : AuthEvent} (done : e ∈ w.state.log) : e ∈ w'.state.log := by
  refine path.stable (P := fun w => e ∈ w.state.log) (fun s a s' before done step => ?_) reachable done
  exact (AuthWorld.grows (AuthWorld.sound before) step.2).subset done

end Growing

/-- A request from the workbench.  One that only reads may have no origin. -/
structure HttpRequest.From (auth : AuthService) (r : HttpRequest) : Prop where
  host : r.host ∈ auth.allowedHosts
  origin : ∀ origin ∈ r.origin, origin ∈ auth.allowedOrigins
  writes : r.writes = true → r.origin.isSome

/-- A request has what the browser was given: the session, and the token if it writes. -/
structure HttpRequest.Bears (r : HttpRequest) (session csrf : String) : Prop where
  session : r.session = some session
  csrf : r.writes = true → r.csrf = some csrf

section Pairing

variable {s : AuthState} {now : Time} {r : HttpRequest} {draws : AuthDraws}

theorem HttpRequest.open_of_exchange {ticket : String} (route : r.route = .exchange ticket) :
    r.guarded = false := by
  unfold HttpRequest.route at route
  split at route
  case isTrue exchange => simp [HttpRequest.guarded, exchange.2, openPaths]
  case isFalse => split_ifs at route

theorem HttpRequest.From.origins (comes : r.From auth) :
    r.origin.all (· ∈ auth.allowedOrigins) = true ∧
      (r.writes = true → r.origin.any (· ∈ auth.allowedOrigins) = true) := by
  constructor
  · simpa [Option.all_eq_true] using comes.origin
  · intro writes
    obtain ⟨origin, given⟩ := Option.isSome_iff_exists.mp (comes.writes writes)
    exact (Option.any_eq_true ..).mpr ⟨origin, given, decide_eq_true (comes.origin origin given)⟩

/-- A request of the workbench to an open path gets through. -/
theorem AuthService.boundary_open (comes : r.From auth) (unguarded : r.guarded = false) :
    auth.boundary r now s = .ok none s := by
  have returns : wp (auth.boundary r now) (fun o t => o = none ∧ t = s) (fun _ _ => False) s := by
    rw [AuthService.boundary]
    refine wp_ensure_bind (fun refused => refused comes.host) fun _ => ?_
    refine wp_ensure_bind (fun refused => refused comes.origins.1) fun _ => ?_
    refine wp_ensure_bind (fun refused => refused comes.origins.2) fun _ => ?_
    rw [unguarded]
    exact ⟨rfl, rfl⟩
  obtain ⟨o, t, ran, rfl, rfl⟩ := returns.returned
  exact ran

/-- A request of the workbench with a session that lasts gets through. -/
theorem AuthService.boundary_guarded (comes : r.From auth) (guarded : r.guarded = true)
    {session csrf : String} (bears : r.Bears session csrf) (named : session ≠ "") (named' : csrf ≠ "")
    {record : AuthSession} (found : s.sessions.get (auth.digest session) = some record)
    (current : record.revoked = false) (early : now < record.expiresAt)
    (hash : record.csrfHash = auth.digest csrf) :
    auth.boundary r now s = .ok (some record.ownerId) s := by
  have returns : wp (auth.boundary r now) (fun o t => o = some record.ownerId ∧ t = s)
      (fun _ _ => False) s := by
    rw [AuthService.boundary, guarded]
    refine wp_ensure_bind (fun refused => refused comes.host) fun _ => ?_
    refine wp_ensure_bind (fun refused => refused comes.origins.1) fun _ => ?_
    refine wp_ensure_bind (fun refused => refused comes.origins.2) fun _ => ?_
    rw [if_pos rfl, wp_bind, AuthService.authenticate, bears.session, Option.filter_some,
      if_pos (by simpa using named)]
    refine wp_raising_bind (fun _ refused => by cases refused) fun _ same => ?_
    cases same
    rw [wp_bind, wp_get, found]
    refine wp_raising_bind (fun _ refused => by cases refused) fun _ same => ?_
    cases same
    refine wp_ensure_bind (fun refused => refused ⟨current, early⟩) fun _ => ?_
    rw [wp_pure]
    split
    case isTrue writes =>
      rw [wp_bind, AuthService.checkCsrf, bears.csrf writes, Option.filter_some,
        if_pos (by simpa using named')]
      refine wp_raising_bind (fun _ refused => by cases refused) fun _ same => ?_
      cases same
      exact wp_ensure (fun refused => refused hash) fun _ => ⟨rfl, rfl⟩
    case isFalse => exact ⟨rfl, rfl⟩
  obtain ⟨o, t, ran, rfl, rfl⟩ := returns.returned
  exact ran

/-- The session that an exchange makes. -/
def AuthService.session (auth : AuthService) (owner : OwnerId) (draws : AuthDraws) (now : Time) :
    AuthSession where
  ownerId := owner
  csrfHash := auth.digest draws.csrf
  expiresAt := now + auth.sessionTtl
  source := .ticketExchange

theorem AuthService.exchange_returns (draws : AuthDraws) {ticket peer : String} {record : AuthTicket}
    (admitted : (pairingWindow.attempt (s.attempts peer) now).2 = true)
    (found : s.tickets.get (auth.digest ticket) = some record) (unconsumed : record.consumed = false)
    (early : (now : Int) < record.expiresAt) :
    ∃ t, auth.exchange ticket peer draws now s = .ok () t ∧
      t.log.head? = some (.minted (auth.digest draws.session) (auth.session record.ownerId draws now)
        (some (auth.digest ticket)) peer now) := by
  have returns : wp (auth.exchange ticket peer draws now) (fun _ t =>
      t.log.head? = some (.minted (auth.digest draws.session) (auth.session record.ownerId draws now)
        (some (auth.digest ticket)) peer now)) (fun _ _ => False) s := by
    rw [AuthService.exchange, wp_bind, AuthService.admitPeer, wp_bind, wp_get]
    generalize pairingWindow.attempt (s.attempts peer) now = result at admitted ⊢
    obtain ⟨recent, admitted'⟩ := result
    rw [wp_bind, wp_modify]
    refine wp_ensure_bind (fun refused => refused admitted) fun _ => ?_
    rw [note, wp_modify, wp_bind, wp_get, found]
    refine wp_raising_bind (fun _ refused => by cases refused) fun _ same => ?_
    cases same
    refine wp_ensure_bind (fun refused => refused ⟨unconsumed, early⟩) fun _ => ?_
    rw [wp_bind, wp_modify, wp_bind, AuthService.createSession, wp_bind, wp_modify, wp_pure, note, wp_modify]
    rfl
  obtain ⟨_, t, ran, made⟩ := returns.returned
  exact ⟨t, ran, made⟩

theorem AuthWorld.next_request {w : AuthWorld} {i : Nat} {owner : Option OwnerId} (free : w.passing i = none)
    (ran : auth.boundary r w.now w.state = .ok owner w.state) :
    w.next auth (.request i r) = some { w with
      state := (note (.passed r owner w.now)).leaves w.state
      passing := Function.update w.passing i (some r) } := by
  rw [AuthWorld.next, free]
  dsimp only
  rw [ran]

theorem AuthWorld.next_handle {w : AuthWorld} {i : Nat} {t : AuthState} (here : w.passing i = some r)
    (ran : auth.handle r draws w.now w.state = .ok () t) :
    w.next auth (.handle i draws) = some { w with
      state := t, passing := Function.update w.passing i none } := by
  rw [AuthWorld.next, here]
  dsimp only
  rw [AuthM.leaves, ran]

/-- The session of a workbench gets its requests through, until it expires or is logged out. -/
theorem AuthWorld.session_passes {w : AuthWorld} (reachable : (authSystem auth).Reachable w)
    {owner : OwnerId} {since : Time} {ticket : Option Hash} {peer : String}
    (minted : .minted (auth.digest draws.session) (auth.session owner draws since) ticket peer since ∈
      w.state.log) (active : .loggedOut (auth.digest draws.session) ∉ w.state.log)
    (lasts : w.now < since + auth.sessionTtl) {j : Nat} (free : w.passing j = none) (comes : r.From auth)
    (guarded : r.guarded = true) (bears : r.Bears draws.session draws.csrf) (named : draws.session ≠ "")
    (named' : draws.csrf ≠ "") :
    ∃ w', w.next auth (.request j r) = some w' ∧
      w'.state.log.head? = some (.passed r (some owner) w.now) := by
  have found := (AuthWorld.sound reachable).sessions.current minted active
  exact ⟨_, AuthWorld.next_request free
    (AuthService.boundary_guarded comes guarded bears named named' found rfl lasts rfl), rfl⟩

end Pairing

/-- A ticket that has not been exchanged and has not expired pairs a browser, if its peer has not made too
many attempts.  From then on, the requests of the browser get through until its session expires or is
logged out. -/
theorem ticket_pairs {w : AuthWorld} (reachable : (authSystem auth).Reachable w) {ticket : String}
    {issued : AuthTicket} (logged : .issued (auth.digest ticket) issued ∈ w.state.log)
    (unexchanged : ∀ e ∈ w.state.log, e.exchanged ≠ some (auth.digest ticket))
    (early : (w.now : Int) < issued.expiresAt) {r : HttpRequest} (comes : r.From auth)
    (route : r.route = .exchange ticket)
    (few : ((admissions r.peer w.state.log).filter fun t => w.now ≤ t + 60).length < 10) {i : Nat}
    (free : w.passing i = none) {draws : AuthDraws} (named : draws.session ≠ "" ∧ draws.csrf ≠ "")
    (fresh : w.state.sessions.get (auth.digest draws.session) = none) :
    ∃ w₁, System.runs (AuthWorld.next auth) w [.request i r, .handle i draws] = some w₁ ∧
      ∀ w₂, (authSystem auth).Path w₁ w₂ → .loggedOut (auth.digest draws.session) ∉ w₂.state.log →
        w₂.now < w.now + auth.sessionTtl → ∀ j, w₂.passing j = none → ∀ r', r'.From auth →
        r'.guarded = true → r'.Bears draws.session draws.csrf →
        ∃ w₃, w₂.next auth (.request j r') = some w₃ ∧
          w₃.state.log.head? = some (.passed r' (some issued.ownerId) w₂.now) := by
  have sound := AuthWorld.sound reachable
  obtain ⟨record, found, owner, expires, consumed⟩ := sound.tickets.held _ _ logged
  have unconsumed : record.consumed = false := by
    refine Bool.eq_false_iff.mpr fun h => ?_
    obtain ⟨e, he, exchanged⟩ := consumed h
    exact unexchanged e he exchanged
  have admitted : (pairingWindow.attempt (w.state.attempts r.peer) w.now).2 = true := by
    refine (sound.attempts r.peer).admits ?_
    have same (t : Time) : (!pairingWindow.old w.now t) = decide (w.now ≤ t + 60) := by
      rw [pairingWindow, ← decide_not, decide_eq_decide]
      exact Nat.not_lt
    simp only [same]
    exact few
  let s := (note (.passed r none w.now)).leaves w.state
  obtain ⟨t, exchanges, made⟩ :=
    AuthService.exchange_returns (s := s) draws admitted found unconsumed (expires ▸ early)
  let w₀ : AuthWorld := { w with state := s, passing := Function.update w.passing i (some r) }
  let w₁ : AuthWorld := { w₀ with state := t, passing := Function.update w₀.passing i none }
  have first : w.next auth (.request i r) = some w₀ :=
    AuthWorld.next_request free (AuthService.boundary_open comes (HttpRequest.open_of_exchange route))
  have second : w₀.next auth (.handle i draws) = some w₁ := by
    refine AuthWorld.next_handle (Function.update_self ..) ?_
    rw [AuthService.handle, route]
    exact exchanges
  have reachable₀ : (authSystem auth).Reachable w₀ := reachable.step (a := .request i r) ⟨trivial, first⟩
  have reachable₁ : (authSystem auth).Reachable w₁ := reachable₀.step (a := .handle i draws) ⟨fresh, second⟩
  have minted := List.mem_of_mem_head? made
  refine ⟨w₁, ?_, fun w₂ path active lasts j free' r' comes' guarded bears => ?_⟩
  · rw [System.runs, first, Option.bind_some, System.runs, second]
    rfl
  · rw [← owner]
    exact AuthWorld.session_passes (reachable₁.path path) (AuthWorld.done_stays reachable₁ path minted)
      active lasts free' comes' guarded bears named.1 named.2

/-! ## A workbench -/

namespace Sample

def workbench : AuthService where
  digest := id
  isLoopback peer := some (peer = "127.0.0.1")
  ownerId := 1
  sessionTtl := 86400
  allowedHosts := ["localhost:8767"]
  allowedOrigins := ["http://localhost:8767"]

/-- A request of the page of the workbench. -/
def ofPage (method path : String) : HttpRequest where
  method := method
  path := path
  host := "localhost:8767"
  peer := "127.0.0.1"
  origin := some "http://localhost:8767"

def exchanging (ticket : String) : HttpRequest :=
  { ofPage "POST" "/api/auth/exchange" with ticket := some ticket }

def creating : HttpRequest :=
  { ofPage "POST" "/api/projects" with session := some "session", csrf := some "csrf" }

/-- A read of the page, without an origin. -/
def reading : HttpRequest where
  method := "GET"
  path := "/api/projects"
  host := "localhost:8767"
  peer := "127.0.0.1"
  session := some "session"

def drawnTexts : AuthDraws where
  ticket := "ticket"
  session := "session"
  csrf := "csrf"

def authRun (actions : List AuthAction) : Option AuthWorld :=
  System.runsIf (AuthWorld.next workbench) (AuthWorld.Sane workbench) {} actions

theorem authRun_reachable {actions : List AuthAction} {w : AuthWorld} (ran : authRun actions = some w) :
    (authSystem workbench).Reachable w :=
  System.Reachable.runsIf (.init rfl) ran

/-- Eleven guesses in one second. -/
def guessing : List AuthAction :=
  (List.replicate 11 [.request 0 (exchanging "guess"), .handle 0 drawnTexts]).flatten

theorem guessed : (authRun guessing).any
    (fun w => (admissions "127.0.0.1" w.state.log).length = 10) = true := by
  decide

/-- A page is paired, and writes. -/
def paired : List AuthAction :=
  [.issue 60 drawnTexts, .request 0 (exchanging "ticket"), .handle 0 drawnTexts, .request 0 creating]

theorem writes : (authRun paired).any
    (fun w => w.state.log.head? = some (.passed creating (some 1) 0)) = true := by
  decide

theorem issuing : (authRun [.issue 60 drawnTexts]).any (fun w =>
    w.state.log = [.issued "ticket" { ownerId := 1, expiresAt := 60 }] ∧ (w.passing 0).isNone ∧
      (w.state.sessions.get "session").isNone ∧ w.now = 0) = true := by
  decide

end Sample

theorem pairing_limited_guessed : ∃ w, Sample.authRun Sample.guessing = some w ∧
    (admissions "127.0.0.1" w.state.log).length = 10 ∧
    ((admissions "127.0.0.1" w.state.log).filter fun t => 0 ≤ t ∧ t ≤ 0 + 60).length ≤ 10 := by
  obtain ⟨w, ran, h⟩ := (Option.any_eq_true ..).mp Sample.guessed
  exact ⟨w, ran, of_decide_eq_true h, pairing_limited (Sample.authRun_reachable ran) "127.0.0.1" 0⟩

theorem requests_paired_writes : ∃ w earlier, Sample.authRun Sample.paired = some w ∧
    w.state.log = .passed Sample.creating (some 1) 0 :: earlier ∧
    Sample.creating.Passes Sample.workbench earlier (some 1) 0 := by
  obtain ⟨w, ran, h⟩ := (Option.any_eq_true ..).mp Sample.writes
  obtain ⟨earlier, split⟩ := List.head?_eq_some_iff.mp (of_decide_eq_true h)
  exact ⟨w, earlier, ran, split, (requests_paired (Sample.authRun_reachable ran)).1 [] _ _ _ _ split⟩

theorem ticket_pairs_issued : ∃ w w₁, Sample.authRun [.issue 60 Sample.drawnTexts] = some w ∧
    System.runs (AuthWorld.next Sample.workbench) w
      [.request 0 (Sample.exchanging "ticket"), .handle 0 Sample.drawnTexts] = some w₁ ∧
    ∀ w₂, (authSystem Sample.workbench).Path w₁ w₂ → .loggedOut "session" ∉ w₂.state.log →
      w₂.now < 86400 → ∀ j, w₂.passing j = none → ∃ w₃ w₄,
        w₂.next Sample.workbench (.request j Sample.creating) = some w₃ ∧
        w₃.state.log.head? = some (.passed Sample.creating (some 1) w₂.now) ∧
        w₂.next Sample.workbench (.request j Sample.reading) = some w₄ ∧
        w₄.state.log.head? = some (.passed Sample.reading (some 1) w₂.now) := by
  obtain ⟨w, ran, h⟩ := (Option.any_eq_true ..).mp Sample.issuing
  obtain ⟨log, free, fresh, now⟩ := of_decide_eq_true h
  have comes : (Sample.exchanging "ticket").From Sample.workbench := ⟨by decide, by decide, by decide⟩
  have logged : AuthEvent.issued (Sample.workbench.digest "ticket") { ownerId := 1, expiresAt := 60 } ∈
      w.state.log := by
    rw [log]
    exact List.mem_cons_self ..
  have few : ((admissions "127.0.0.1" w.state.log).filter fun t => w.now ≤ t + 60).length < 10 := by
    rw [log, now]
    decide
  obtain ⟨w₁, runs, passes⟩ := ticket_pairs (Sample.authRun_reachable ran) logged (by rw [log]; decide)
    (by rw [now]; decide) comes (by decide) few (Option.isNone_iff_eq_none.mp free)
    (by decide : Sample.drawnTexts.session ≠ "" ∧ Sample.drawnTexts.csrf ≠ "")
    (Option.isNone_iff_eq_none.mp fresh)
  rw [now, Nat.zero_add] at passes
  refine ⟨w, w₁, ran, runs, fun w₂ path active lasts j free => ?_⟩
  obtain ⟨w₃, next, passed⟩ := passes w₂ path active lasts j free Sample.creating
    ⟨by decide, by decide, by decide⟩ (by decide) ⟨rfl, by decide⟩
  obtain ⟨w₄, next', passed'⟩ := passes w₂ path active lasts j free Sample.reading
    ⟨by decide, by decide, by decide⟩ (by decide) ⟨rfl, by decide⟩
  exact ⟨w₃, w₄, next, passed, next', passed'⟩

end MiHarness

import MiHarness.Library.Effects
import MiHarness.Library.System
import MiHarness.Library.Window
import MiHarness.Storage.Records

/-!
# Pairing a browser with the workbench

A ticket that the command line issues is exchanged for a session, and a page that is opened on the machine
itself gets one without a ticket.  `request_boundary` lets a request to the API through only with a session,
and one that writes only with the token against forgery of that session.  Attempts to pair are counted for
each peer, in the memory of the server.

A request is cut where it awaits: the boundary checks it, and its route runs later, between other requests,
tickets and restarts of the server.  Storage has only digests of tickets, sessions and tokens.  Of the other
routes it only matters that they run.
-/

namespace MiHarness

open Library

/-! ## Records -/

/-- A record of `auth_tickets`. -/
structure AuthTicket where
  ownerId : OwnerId
  expiresAt : Int
  consumed : Bool := false
deriving DecidableEq, Repr

inductive SessionSource where
  | ticketExchange | loopbackAuto
deriving DecidableEq, Repr

/-- A record of `auth_sessions`. -/
structure AuthSession where
  ownerId : OwnerId
  csrfHash : Hash
  expiresAt : Time
  revoked : Bool := false
  source : SessionSource
deriving DecidableEq, Repr

/-! ## Requests -/

/-- What the boundary and the routes of pairing read of a request. -/
structure HttpRequest where
  method : String
  path : String
  /-- The `Host` header in lower case, empty if there is none. -/
  host : String
  /-- The address of the client, empty if it is not known. -/
  peer : String
  origin : Option String := none
  /-- The cookie `harness_session`. -/
  session : Option String := none
  /-- The cookie `harness_csrf`. -/
  csrfCookie : Option String := none
  /-- The header `X-CSRF-Token`. -/
  csrf : Option String := none
  /-- The ticket of a body that is a valid `PairingInput`. -/
  ticket : Option String := none
deriving DecidableEq, Repr

/-- `unsafe` of `request_boundary`. -/
def HttpRequest.writes (r : HttpRequest) : Bool :=
  r.method ∉ ["GET", "HEAD", "OPTIONS"]

/-- The paths of the API that need no session. -/
def openPaths : List String :=
  ["/api/auth/exchange", "/api/auth/local", "/api/mcp/oauth/callback", "/api/health"]

/-- A request that needs a session. -/
def HttpRequest.guarded (r : HttpRequest) : Bool :=
  "/api/".toList.isPrefixOf r.path.toList && r.path ∉ openPaths

inductive AuthRoute where
  | exchange (ticket : String)
  | exchangeLocal
  | session
  | logout
  | other
deriving DecidableEq, Repr

/-- The route of a request.  Without a valid body it never runs. -/
def HttpRequest.route (r : HttpRequest) : AuthRoute :=
  if r.method = "POST" ∧ r.path = "/api/auth/exchange" then r.ticket.elim .other .exchange
  else if r.method = "POST" ∧ r.path = "/api/auth/local" then .exchangeLocal
  else if r.method = "GET" ∧ r.path = "/api/auth/session" then .session
  else if r.method = "POST" ∧ r.path = "/api/auth/logout" then .logout
  else .other

/-! ## The service -/

/-- What has been done, for what is said of the past. -/
inductive AuthEvent where
  | started
  | issued (ticket : Hash) (record : AuthTicket)
  | admitted (peer : String) (since : Time)
  /-- A session, and the ticket that was exchanged for it. -/
  | minted (session : Hash) (record : AuthSession) (ticket : Option Hash) (peer : String) (since : Time)
  | loggedOut (session : Hash)
  | passed (request : HttpRequest) (owner : Option OwnerId) (since : Time)
deriving DecidableEq, Repr

/-- The tables, and what the server remembers of each peer. -/
structure AuthState where
  tickets : Records Hash AuthTicket := Table.empty
  sessions : Records Hash AuthSession := Table.empty
  attempts : String → List Time := fun _ => []
  log : List AuthEvent := []

abbrev AuthM := EStateM HarnessError AuthState

/-- What the service and the app are made with. -/
structure AuthService where
  /-- `sha256` of a text. -/
  digest : String → Hash
  /-- `ip_address(peer).is_loopback`, `none` for a peer that is no address. -/
  isLoopback : String → Option Bool
  ownerId : OwnerId
  sessionTtl : Nat
  allowedHosts : List String
  allowedOrigins : List String

/-- The texts that are drawn. -/
structure AuthDraws where
  ticket : String
  session : String
  csrf : String
deriving DecidableEq, Repr

/-- At most ten attempts of a peer in a minute. -/
def pairingWindow : Window Time where
  most := 10
  old now t := t + 60 < now
  mono isOld later before := decide_eq_true
    (Nat.lt_of_le_of_lt (Nat.add_le_add_right before 60) (Nat.lt_of_lt_of_le (of_decide_eq_true isOld) later))

def note (e : AuthEvent) : AuthM Unit :=
  modify fun s => { s with log := e :: s.log }

namespace AuthService

variable (auth : AuthService)

def issueTicket (ttlSeconds : Int) (draws : AuthDraws) (now : Time) : AuthM Unit := do
  let record : AuthTicket := { ownerId := auth.ownerId, expiresAt := now + ttlSeconds }
  modify fun s => { s with tickets := s.tickets.write (auth.digest draws.ticket) record }
  note (.issued (auth.digest draws.ticket) record)

/-- `_admit`. -/
def admitPeer (peer : String) (now : Time) : AuthM Unit := do
  let (recent, admitted) := pairingWindow.attempt ((← get).attempts peer) now
  modify fun s => { s with attempts := Function.update s.attempts peer recent }
  ensure (admitted = true)
    { code := .server "PAIRING_RATE_LIMIT", message := "配对尝试过于频繁，请稍后重试", status := 429 }
  note (.admitted peer now)

/-- `_create_session`. -/
def createSession (ownerId : OwnerId) (now : Time) (source : SessionSource) (draws : AuthDraws) :
    AuthM AuthSession := do
  let record : AuthSession := {
    ownerId, csrfHash := auth.digest draws.csrf, expiresAt := now + auth.sessionTtl, source }
  modify fun s => { s with sessions := s.sessions.write (auth.digest draws.session) record }
  return record

def exchange (ticket peer : String) (draws : AuthDraws) (now : Time) : AuthM Unit := do
  admitPeer peer now
  let invalid : HarnessError :=
    { code := .server "PAIRING_INVALID", message := "配对口令无效、已使用或已过期", status := 401 }
  let record ← raising (orThrow ((← get).tickets.get (auth.digest ticket)) invalid)
  ensure (record.consumed = false ∧ (now : Int) < record.expiresAt) invalid
  modify fun s => { s with
    tickets := s.tickets.write (auth.digest ticket) { record with consumed := true } }
  let session ← auth.createSession record.ownerId now .ticketExchange draws
  note (.minted (auth.digest draws.session) session (some (auth.digest ticket)) peer now)

def exchangeLocal (peer : String) (draws : AuthDraws) (now : Time) : AuthM Unit := do
  ensure (auth.isLoopback peer = some true)
    { code := .server "LOCAL_PAIRING_DENIED", message := "自动连接只允许本机回环地址", status := 403 }
  admitPeer peer now
  let session ← auth.createSession auth.ownerId now .loopbackAuto draws
  note (.minted (auth.digest draws.session) session none peer now)

def authenticate (token : Option String) (now : Time) : AuthM AuthSession := do
  let required : HarnessError :=
    { code := .server "AUTH_REQUIRED", message := "本机会话不存在或已过期", status := 401 }
  let token ← raising (orThrow (token.filter (· ≠ "")) required)
  let record ← raising (orThrow ((← get).sessions.get (auth.digest token)) required)
  ensure (record.revoked = false ∧ now < record.expiresAt) required
  return record

def checkCsrf (record : AuthSession) (token : Option String) : AuthM Unit := do
  let rejected : HarnessError :=
    { code := .server "CSRF_REJECTED", message := "请求校验失败，请刷新工作台后重试", status := 403 }
  let token ← raising (orThrow (token.filter (· ≠ "")) rejected)
  ensure (record.csrfHash = auth.digest token) rejected

def logout (token : String) (now : Time) : AuthM Unit := do
  let record ← auth.authenticate (some token) now
  modify fun s => { s with
    sessions := s.sessions.write (auth.digest token) { record with revoked := true } }
  note (.loggedOut (auth.digest token))

/-! ## The app -/

/-- `request_boundary` up to `call_next`, with the owner that it finds. -/
def boundary (r : HttpRequest) (now : Time) : AuthM (Option OwnerId) := do
  ensure (r.host ∈ auth.allowedHosts)
    { code := .server "HOST_REJECTED", message := "请求 Host 不在本机服务白名单内", status := 403 }
  ensure (r.origin.all (· ∈ auth.allowedOrigins) = true)
    { code := .server "ORIGIN_REJECTED", message := "请求来源未获允许", status := 403 }
  ensure (r.writes = true → r.origin.any (· ∈ auth.allowedOrigins) = true)
    { code := .server "ORIGIN_REQUIRED", message := "写请求必须来自已授权的工作台来源", status := 403 }
  if r.guarded then do
    let session ← auth.authenticate r.session now
    if r.writes then auth.checkCsrf session r.csrf
    return some session.ownerId
  else return none

/-- What the route of a request does here. -/
def handle (r : HttpRequest) (draws : AuthDraws) (now : Time) : AuthM Unit :=
  match r.route with
  | .exchange ticket => auth.exchange ticket r.peer draws now
  | .exchangeLocal => auth.exchangeLocal r.peer draws now
  | .session => do
      let record ← auth.authenticate r.session now
      auth.checkCsrf record (some (r.csrfCookie.getD ""))
  | .logout => do
      let token ← raising (orThrow r.session { code := .keyError, message := "harness_session", status := 500 })
      auth.logout token now
  | .other => pure ()

end AuthService

/-! ## Runs -/

/-- The state, and the requests that the boundary has let through and whose routes have not run. -/
structure AuthWorld where
  now : Time := 0
  state : AuthState := {}
  passing : Nat → Option HttpRequest := fun _ => none

inductive AuthAction where
  | tick (now : Time)
  /-- A ticket of the command line. -/
  | issue (ttlSeconds : Int) (draws : AuthDraws)
  | request (i : Nat) (r : HttpRequest)
  /-- The route of a request runs. -/
  | handle (i : Nat) (draws : AuthDraws)
  | drop (i : Nat)
  /-- The server is started again. -/
  | restart
deriving DecidableEq, Repr

/-- What a computation leaves, when it returns and when it raises. -/
def AuthM.leaves {α : Type} (x : AuthM α) (s : AuthState) : AuthState :=
  match x s with
  | .ok _ t => t
  | .error _ t => t

def AuthWorld.next (auth : AuthService) (w : AuthWorld) : AuthAction → Option AuthWorld
  | .tick now => some { w with now }
  | .issue ttlSeconds draws =>
      some { w with state := (auth.issueTicket ttlSeconds draws w.now).leaves w.state }
  | .request i r =>
      match w.passing i with
      | some _ => none
      | none =>
          match auth.boundary r w.now w.state with
          | .ok owner s => some { w with
              state := (note (.passed r owner w.now)).leaves s
              passing := Function.update w.passing i (some r) }
          | .error _ s => some { w with state := s }
  | .handle i draws =>
      match w.passing i with
      | none => none
      | some r => some { w with
          state := (auth.handle r draws w.now).leaves w.state
          passing := Function.update w.passing i none }
  | .drop i => some { w with passing := Function.update w.passing i none }
  | .restart => some { w with
      state := { w.state with attempts := fun _ => [], log := .started :: w.state.log }
      passing := fun _ => none }

/-- The clock does not go back, and what is drawn has a digest that is not in use. -/
def AuthWorld.Sane (auth : AuthService) (w : AuthWorld) : AuthAction → Prop
  | .tick now => w.now ≤ now
  | .issue _ draws => w.state.tickets.get (auth.digest draws.ticket) = none
  | .handle _ draws => w.state.sessions.get (auth.digest draws.session) = none
  | .request .. | .drop .. | .restart => True

instance (auth : AuthService) (w : AuthWorld) : DecidablePred (w.Sane auth) := fun
  | .tick now => inferInstanceAs (Decidable (w.now ≤ now))
  | .issue .. | .handle .. => inferInstanceAs (Decidable (_ = none))
  | .request .. | .drop .. | .restart => .isTrue trivial

def authSystem (auth : AuthService) : System AuthWorld AuthAction :=
  (System.ofNext (fun w => w = {}) (AuthWorld.next auth)).restrict (AuthWorld.Sane auth)

end MiHarness

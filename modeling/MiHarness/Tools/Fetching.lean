import MiHarness.Policy.Endpoint

/-!
# The fetch tool

`retrieve` follows at most five redirects.  Before each request it has the policy engine check the URL,
and it connects to one of the addresses that this check has resolved.

What the engine reads, what the resolver answers and what the server replies may depend on all
requests before, so that records can change and a server or a resolver can answer each time as it likes.
-/

namespace MiHarness

open Library

/-- A connection that is opened, with its request. -/
structure FetchRequest where
  url : String
  address : String
  port : Nat
  https : Bool
  /-- The name that the certificate has to bear. -/
  serverHostname : String
  hostHeader : String
  target : String
deriving DecidableEq, Repr

structure FetchResponse where
  status : Nat
  location : Option String := none
  contentType : Option String := none
  /-- `none` when the body cannot be read. -/
  body : Option (List UInt8) := some []
deriving DecidableEq, Repr

/-- What a hop finds: the records and the answers of the resolver, and the reply to its request, `none`
when the connection fails. -/
structure FetchMoment extends NetworkMoment where
  urlopen : FetchRequest → Option FetchResponse

structure Fetched where
  raw : List UInt8
  mime : String
  url : String
  status : Nat
  truncated : Bool
deriving DecidableEq, Repr

/-- The request of a hop. -/
def UrlParts.request (parts : UrlParts) (url address : String) (port : Option Nat) : FetchRequest where
  url
  address
  port := parts.target port
  https := parts.scheme = "https"
  serverHostname := parts.hostname
  hostHeader :=
    if port.getD 0 = 0 then parts.hostname else parts.hostname ++ ":" ++ toString (parts.target port)
  target := (if parts.path = "" then "/" else parts.path) ++
    (if parts.query = "" then "" else "?" ++ parts.query)

/-- `mime` of a response. -/
def FetchResponse.mime (response : FetchResponse) : String :=
  String.ofList ((response.contentType.getD "application/octet-stream").toList.takeWhile (· ≠ ';'))

def textual (mime : String) : Bool :=
  "text/".toList.isPrefixOf mime.toList || mime = "application/json" || mime = "application/xml"

/-- What is returned of a response that is no redirect. -/
def FetchResponse.fetched (response : FetchResponse) (url : String) :
    Except NetworkFault Fetched := do
  require (textual response.mime = true) (.network .fetchType "仅支持文本网络响应" 422)
  let raw ← orThrow response.body .other
  return {
    raw := raw.take (1024 * 1024), mime := response.mime, url, status := response.status
    truncated := 1024 * 1024 < raw.length }

/-- Where a redirect leads. -/
def FetchResponse.next (lib : UrlLibrary) (response : FetchResponse) (url : String) :
    Except NetworkFault String := do
  let location := response.location.getD ""
  require (location ≠ "") (.network .invalidRedirect "响应缺少重定向目标" 422)
  orThrow (lib.urljoin url location) .other

/-- The loop of `BuiltinTools.fetch`, with the requests made so far, the latest first. -/
def retrieve (lib : UrlLibrary) (world : List FetchRequest → FetchMoment) (ctx : AccessContext) :
    Nat → String → List FetchRequest → Except NetworkFault Fetched × List FetchRequest
  | 0, _, made => (.error (.network .redirectLimit "重定向次数超过限制" 422), made)
  | hops + 1, url, made =>
      match (world made).endpoint lib url ctx "fetch" false none none with
      | .error e => (.error e, made)
      | .ok addresses =>
          match lib.urlsplit url, addresses.head? with
          | some parts, some address =>
              let request := parts.request url address (parts.port.getD none)
              match (world made).urlopen request with
              | none => (.error .other, request :: made)
              | some response =>
                  if response.status ∈ [301, 302, 303, 307, 308] then
                    match response.next lib url with
                    | .error e => (.error e, request :: made)
                    | .ok url => retrieve lib world ctx hops url (request :: made)
                  else (response.fetched url, request :: made)
          | _, _ => (.error .other, made)

/-- `BuiltinTools.fetch`, up to the artifact that it writes. -/
def fetch (lib : UrlLibrary) (world : List FetchRequest → FetchMoment) (ctx : AccessContext)
    (url : String) : Except NetworkFault Fetched × List FetchRequest :=
  retrieve lib world ctx 6 url []

/-! ## The requests -/

/-- The request goes to an address that was resolved and checked at this moment. -/
structure FetchRequest.Allowed (lib : UrlLibrary) (m : NetworkMoment) (ctx : AccessContext)
    (r : FetchRequest) : Prop where
  checked : ∃ parts addresses, m.Checked lib r.url ctx parts addresses ∧ r.address ∈ addresses ∧
    r.serverHostname = parts.hostname ∧ parts.port.map parts.target = some r.port
  routable : ∃ ip, lib.ipAddress r.address = some ip ∧ ip.isGlobal = true

/-- The result is made of the reply to the latest request. -/
def Fetched.Of (f : Fetched) (world : List FetchRequest → FetchMoment) (made : List FetchRequest) :
    Prop :=
  ∃ r before response, made = r :: before ∧ (world before).urlopen r = some response ∧
    response.fetched r.url = .ok f

section Retrieve

variable {lib : UrlLibrary} {world : List FetchRequest → FetchMoment} {ctx : AccessContext}

theorem mapM_mem {α β : Type} {f : α → Option β} : ∀ {l : List α} {l' : List β},
    l.mapM f = some l' → ∀ a ∈ l, ∃ b ∈ l', f a = some b
  | [], _, _, _, h => absurd h List.not_mem_nil
  | a :: l, l', h, x, hx => by
      rw [List.mapM_cons] at h
      obtain ⟨b, here, h⟩ := Option.bind_eq_some_iff.mp h
      obtain ⟨rest, later, h⟩ := Option.bind_eq_some_iff.mp h
      cases h
      rcases List.mem_cons.mp hx with rfl | hx
      · exact ⟨b, List.mem_cons_self .., here⟩
      · obtain ⟨b', member, found⟩ := mapM_mem later x hx
        exact ⟨b', List.mem_cons_of_mem _ member, found⟩

/-- The request that a hop makes is allowed. -/
theorem allowed_of_endpoint {m : NetworkMoment} {url address : String} {parts : UrlParts}
    {addresses : List String} (h : m.endpoint lib url ctx "fetch" false none none = .ok addresses)
    (parsed : lib.urlsplit url = some parts) (first : addresses.head? = some address) :
    (parts.request url address (parts.port.getD none)).Allowed lib m ctx := by
  obtain ⟨parts', checked⟩ := NetworkMoment.endpoint_fetch h
  cases parsed.symm.trans checked.parsed
  have member : address ∈ addresses := List.mem_of_head? first
  obtain ⟨port, answers, found, -, -⟩ := checked.resolved
  obtain ⟨ips, policy, read, routable, -, -⟩ := checked.ips
  obtain ⟨ip, known, isAddress⟩ := mapM_mem read address member
  constructor
  · refine ⟨parts, addresses, checked, member, rfl, ?_⟩
    rw [found]
    rfl
  · exact ⟨ip, isAddress, routable ip known⟩

/-- What a loop that starts after some requests has made: every request is allowed at its moment, and a
result is made of the last reply. -/
structure Follows (lib : UrlLibrary) (world : List FetchRequest → FetchMoment) (ctx : AccessContext)
    (hops : Nat) (made : List FetchRequest)
    (run : Except NetworkFault Fetched × List FetchRequest) : Prop where
  requests : ∃ new, run.2 = new ++ made ∧ new.length ≤ hops ∧
    ∀ later r before, new = later ++ r :: before →
      r.Allowed lib (world (before ++ made)).toNetworkMoment ctx
  result : ∀ f, run.1 = .ok f → f.Of world run.2

/-- A loop that makes no request. -/
theorem Follows.none {hops : Nat} {made : List FetchRequest} (e : NetworkFault) :
    Follows lib world ctx hops made (.error e, made) where
  requests := ⟨[], rfl, Nat.zero_le _, fun _ _ _ h => absurd h (by simp)⟩
  result _ h := nomatch h

/-- A loop goes on after an allowed request. -/
theorem Follows.cons {hops : Nat} {made : List FetchRequest} {r : FetchRequest}
    {run : Except NetworkFault Fetched × List FetchRequest}
    (allowed : r.Allowed lib (world made).toNetworkMoment ctx)
    (later : Follows lib world ctx hops (r :: made) run) :
    Follows lib world ctx (hops + 1) made run := by
  obtain ⟨⟨new, made', bound, each⟩, result⟩ := later
  refine ⟨⟨new ++ [r], ?_, ?_, ?_⟩, result⟩
  · rw [made', List.append_assoc, List.singleton_append]
  · rw [List.length_append, List.length_singleton]
    exact Nat.succ_le_succ bound
  · intro later r' before h
    rcases List.eq_nil_or_concat before with rfl | ⟨before', r'', rfl⟩
    · obtain ⟨-, h⟩ := List.append_inj' h rfl
      cases h
      exact allowed
    · have split : new ++ [r] = (later ++ r' :: before') ++ [r''] := by
        rw [h, List.concat_eq_append, List.append_assoc, List.cons_append]
      obtain ⟨front, last⟩ := List.append_inj' split rfl
      obtain rfl := List.singleton_inj.mp last
      have here := each later r' before' front
      rw [List.concat_eq_append, List.append_assoc]
      exact here

/-- A request whose reply ends the loop. -/
theorem Follows.last {hops : Nat} {made : List FetchRequest} {r : FetchRequest}
    {result : Except NetworkFault Fetched}
    (allowed : r.Allowed lib (world made).toNetworkMoment ctx)
    (made_of : ∀ f, result = .ok f → f.Of world (r :: made)) :
    Follows lib world ctx (hops + 1) made (result, r :: made) :=
  .cons allowed {
    requests := ⟨[], rfl, Nat.zero_le _, fun _ _ _ h => absurd h (by simp)⟩
    result := made_of }

theorem retrieve_follows : ∀ (hops : Nat) (url : String) (made : List FetchRequest),
    Follows lib world ctx hops made (retrieve lib world ctx hops url made)
  | 0, _, _ => .none _
  | hops + 1, url, made => by
      unfold retrieve
      cases checked : (world made).endpoint lib url ctx "fetch" false none none with
      | error e => exact .none e
      | ok addresses =>
          dsimp only
          cases parsed : lib.urlsplit url with
          | none => exact .none _
          | some parts =>
              cases first : addresses.head? with
              | none => exact .none _
              | some address =>
                  have allowed := allowed_of_endpoint checked parsed first
                  dsimp only
                  cases reply : (world made).urlopen _ with
                  | none => exact .last allowed fun _ h => nomatch h
                  | some response =>
                      dsimp only
                      split
                      · cases response.next lib url with
                        | error e => exact .last allowed fun _ h => nomatch h
                        | ok url' => exact .cons allowed (retrieve_follows hops url' _)
                      · exact .last allowed fun f h => ⟨_, _, response, rfl, reply, h⟩

end Retrieve

/-- Whatever the servers and the resolver answer: every request goes to an address that was resolved and
checked for its URL at its moment, there are at most six, and the loop ends with an error or with what
is made of the last reply. -/
theorem fetch_confined (lib : UrlLibrary) (world : List FetchRequest → FetchMoment)
    (ctx : AccessContext) (url : String) :
    (∀ later r before, (fetch lib world ctx url).2 = later ++ r :: before →
      r.Allowed lib (world before).toNetworkMoment ctx) ∧
    (fetch lib world ctx url).2.length ≤ 6 ∧
    ((∃ e, (fetch lib world ctx url).1 = .error e) ∨
      ∃ f, (fetch lib world ctx url).1 = .ok f ∧ f.Of world (fetch lib world ctx url).2) := by
  obtain ⟨⟨new, made, bound, each⟩, result⟩ :=
    @retrieve_follows lib world ctx 6 url []
  rw [List.append_nil] at made
  refine ⟨fun later r before h => ?_, ?_, ?_⟩
  · have here := each later r before (made.symm.trans h)
    rw [List.append_nil] at here
    exact here
  · rw [fetch, made]
    exact bound
  · cases h : (fetch lib world ctx url).1 with
    | error e => exact .inl ⟨e, rfl⟩
    | ok f => exact .inr ⟨f, rfl, result f h⟩

end MiHarness

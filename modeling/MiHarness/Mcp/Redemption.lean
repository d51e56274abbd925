import MiHarness.Mcp.Authorization

/-!
# A code is redeemed once

A callback claims the record of its authorization before it asks the token endpoint, and a claim is made of
a record that nothing has changed.  So however callbacks, crashes and changes of the servers come between
each other, the token endpoint is asked at most once for an authorization, with the verifier that was made
for its state, and for the owner, the server and the revision of the server that it was begun for
(`redeemed_once`).  A decision about an authorization stays (`authorization_decided`), and one that is
pending can be redeemed (`pending_redeemable`).
-/

namespace MiHarness

open Library

variable {host : OAuthHost}

/-! ## What the pieces do to the tables -/

/-- The records, and the flows in the vault, are what they were. -/
structure OAuthTables.Calm (t t' : OAuthTables) : Prop where
  authorizations : t'.authorizations = t.authorizations
  flows : ∀ id identity, t'.vault.get? ⟨.flow id, identity⟩ = t.vault.get? ⟨.flow id, identity⟩

/-- The records are what they were, and the vault may have more flows. -/
structure OAuthTables.Spares (t t' : OAuthTables) : Prop where
  authorizations : t'.authorizations = t.authorizations
  flows : ∀ id identity v, t.vault.get? ⟨.flow id, identity⟩ = some v →
    t'.vault.get? ⟨.flow id, identity⟩ = some v

/-- An authorization has begun. -/
structure OAuthTables.Begins (host : OAuthHost) (t : OAuthTables) (b : BegunAuthorization)
    (t' : OAuthTables) : Prop where
  key : b.key = host.sha256 b.flow.state
  status : b.record.status = .pending
  revision : b.record.revision = 1
  asks : ("state", b.flow.state) ∈ b.query ∧
    ("code_challenge", host.challenge b.flow.verifier) ∈ b.query ∧
    ("redirect_uri", b.flow.redirectUri) ∈ b.query ∧ ("resource", b.flow.resource) ∈ b.query
  free : t.authorizations.revision b.key = 0
  rows : ∀ k, t'.authorizations.get? k =
    if k = b.key then some { revision := 1, payload := b.record } else t.authorizations.get? k
  kept : ∃ identity, b.record.vaultRef = some ⟨.flow b.record.authorizationId, identity⟩ ∧
    t'.vault.get? ⟨.flow b.record.authorizationId, identity⟩ = some (.flow b.flow)
  flows : ∀ id identity v, t.vault.get? ⟨.flow id, identity⟩ = some v →
    t'.vault.get? ⟨.flow id, identity⟩ = some v

/-- A record with the next revision and a status. -/
def OAuthAuthorization.to (record : OAuthAuthorization) (status : OAuthStatus) : OAuthAuthorization :=
  { record with
    revision := record.revision + 1, status
    vaultRef := if status = .authorized then none else record.vaultRef }

/-- A record has a status, and only its flow may have left the vault, if it is authorized. -/
structure OAuthTables.Moved (key : Hash) (record : OAuthAuthorization) (status : OAuthStatus)
    (t t' : OAuthTables) : Prop where
  current : t.authorizations.revision key = record.revision
  rows : ∀ k, t'.authorizations.get? k =
    if k = key then some { revision := record.revision + 1, payload := record.to status }
    else t.authorizations.get? k
  flows : ∀ id identity v, t.vault.get? ⟨.flow id, identity⟩ = some v →
    t'.vault.get? ⟨.flow id, identity⟩ = some v ∨
      status = .authorized ∧ record.vaultRef = some ⟨.flow id, identity⟩

namespace OAuthTables

variable {t t' t'' : OAuthTables}

theorem Calm.refl (t : OAuthTables) : t.Calm t := ⟨rfl, fun _ _ => rfl⟩

theorem Calm.trans (first : t.Calm t') (second : t'.Calm t'') : t.Calm t'' :=
  ⟨second.authorizations.trans first.authorizations,
    fun id identity => (second.flows id identity).trans (first.flows id identity)⟩

theorem Calm.spares (calm : t.Calm t') : t.Spares t' :=
  ⟨calm.authorizations, fun id identity _ found => (calm.flows id identity).trans found⟩

theorem Spares.refl (t : OAuthTables) : t.Spares t := (Calm.refl t).spares

theorem Calm.begins {b : BegunAuthorization} (calm : t.Calm t') (begins : t'.Begins host b t'') :
    t.Begins host b t'' where
  key := begins.key
  status := begins.status
  revision := begins.revision
  asks := begins.asks
  free := calm.authorizations ▸ begins.free
  rows := calm.authorizations ▸ begins.rows
  kept := begins.kept
  flows id identity v found := begins.flows id identity v ((calm.flows id identity).trans found)

theorem Calm.then_spares (calm : t.Calm t') (spares : t'.Spares t'') : t.Spares t'' where
  authorizations := spares.authorizations.trans calm.authorizations
  flows id identity v found := spares.flows id identity v ((calm.flows id identity).trans found)

theorem Calm.moved {key : Hash} {record : OAuthAuthorization} {status : OAuthStatus} (calm : t.Calm t')
    (moved : Moved key record status t' t'') : Moved key record status t t'' where
  current := calm.authorizations ▸ moved.current
  rows := calm.authorizations ▸ moved.rows
  flows id identity v found := moved.flows id identity v ((calm.flows id identity).trans found)

end OAuthTables

open OAuthTables

section Pieces

variable {t : OAuthTables} {m : OAuthMoment}

theorem vaultGet_wp (place : VaultPlace) (reference : VaultReference) (target : VaultTarget) :
    wp (vaultGet m place reference target)
      (fun v t' => t' = t ∧ reference.target = target ∧ t.vault.get? reference = some v)
      (fun _ t' => t' = t) t := by
  rw [vaultGet]
  refine wp_ensure_bind (fun _ => rfl) fun scope => ?_
  refine wp_raise_bind (fun _ _ => rfl) fun _ => ?_
  rw [wp_bind, wp_get]
  exact wp_raising (fun _ _ => rfl) fun v found => ⟨rfl, scope, orThrow_eq_ok.mp found⟩

/-- The flows of the vault do not change with a credential. -/
theorem vaultPut_calm (place : VaultPlace) (scope identity : Hash) (value : VaultValue) :
    Moves Calm (vaultPut m place { target := .oauth scope, identity } value) := by
  refine Moves.bind (R := Calm) Calm.trans (Moves.raise Calm.refl _) fun _ => Moves.modify fun t => ?_
  refine ⟨rfl, fun id drawn => ?_⟩
  rw [Table.get?_put, if_neg]
  intro same
  cases congrArg VaultReference.target same

theorem vaultDelete_calm (reads deletes : VaultPlace) (reference : VaultReference) (scope : Hash) :
    Moves Calm (vaultDelete m reads deletes reference (.oauth scope)) := by
  intro t
  rw [vaultDelete, wp_bind]
  refine (vaultGet_wp _ reference _).mono (fun v t' read => ?_) fun _ t' same => same ▸ Calm.refl t
  obtain ⟨rfl, target, -⟩ := read
  refine wp_raise_bind (fun _ _ => Calm.refl _) fun _ => ⟨rfl, fun id identity => ?_⟩
  rw [Table.get?_erase, if_neg]
  intro same
  rw [← same] at target
  cases target

theorem OAuthHost.setCredential_calm (owner : OwnerId) (server key identity : String) (value : VaultValue) :
    Moves Calm (host.setCredential m owner server key identity value) := by
  refine Moves.bind (R := Calm) Calm.trans (Moves.get Calm.refl) fun found => ?_
  refine Moves.bind (R := Calm) Calm.trans (vaultPut_calm _ _ _ _) fun _ => ?_
  refine Moves.bind (R := Calm) Calm.trans (Moves.modify fun t => ⟨rfl, fun _ _ => rfl⟩) fun _ => ?_
  cases found.credentials.get (host.scope owner server ++ key) with
  | none => exact Moves.pure Calm.refl _
  | some old => exact vaultDelete_calm _ _ _ _

theorem OAuthHost.getClientInfo_calm (owner : OwnerId) (server : String) :
    Moves Calm (host.getClientInfo m owner server) := by
  refine Moves.bind (R := Calm) Calm.trans (Moves.get Calm.refl) fun found => ?_
  cases found.credentials.get (host.scope owner server ++ ":client") with
  | none => exact Moves.pure Calm.refl _
  | some entry =>
      refine Moves.bind (R := Calm) Calm.trans (fun t => ?_) fun v => ?_
      · exact (vaultGet_wp _ _ _).mono (fun _ _ read => read.1 ▸ Calm.refl t)
          fun _ _ same => same ▸ Calm.refl t
      · cases v with
        | client info => exact Moves.pure Calm.refl _
        | flow => exact Moves.throw Calm.refl _
        | tokens => exact Moves.throw Calm.refl _

theorem OAuthHost.beginFlow_wp {call : AuthorizeCall} {resource issuer tokenEndpoint endpoint : String}
    {issuerRequired : Bool} {client : OAuthClientInfo} {draws : OAuthDraws} {now : Time}
    (fresh : t.vault.get? ⟨.flow draws.authorizationId, draws.flowIdentity⟩ = none) :
    wp (host.beginFlow call resource issuer tokenEndpoint endpoint issuerRequired client m draws now)
      (fun b t' => t.Begins host b t') (fun _ t' => t.Spares t') t := by
  have kept {v' : VaultValue} {id identity : String} {v : VaultValue}
      (found : t.vault.get? ⟨.flow id, identity⟩ = some v) :
      (t.vault.put ⟨.flow draws.authorizationId, draws.flowIdentity⟩ v').get? ⟨.flow id, identity⟩ =
        some v := by
    rw [Table.get?_put, if_neg, found]
    intro same
    rw [same, fresh] at found
    cases found
  rw [OAuthHost.beginFlow, wp_bind, vaultPut]
  refine wp_raise_bind (fun _ _ => Spares.refl t) fun _ => ?_
  rw [wp_modify, wp_bind, wp_get]
  refine wp_raising_bind (fun e _ => ⟨rfl, fun _ _ _ => kept⟩) fun rows inserted => ?_
  obtain ⟨free, rfl⟩ := Records.compareAndSet_eq_ok.mp (mapError_eq_ok.mp inserted)
  rw [wp_bind, wp_modify, wp_pure]
  exact {
    key := rfl
    status := rfl
    revision := rfl
    asks := by simp
    free
    rows := fun k => Table.get?_put ..
    kept := ⟨draws.flowIdentity, rfl, by simp [Table.get?_put]⟩
    flows := fun _ _ _ => kept }

/-- What a piece of `authorize` leaves. -/
def AuthorizeProgress.Leaves (host : OAuthHost) (t t' : OAuthTables) : AuthorizeProgress → Prop
  | .awaits _ => t.Spares t'
  | .begun b => t.Begins host b t'

theorem OAuthHost.chosen_wp {call : AuthorizeCall} {resource issuer : String} {reply : HttpReply}
    {draws : OAuthDraws} {now : Time}
    (fresh : t.vault.get? ⟨.flow draws.authorizationId, draws.flowIdentity⟩ = none) :
    wp (host.chosen call resource issuer reply m draws now) (fun p t' => p.Leaves host t t')
      (fun _ t' => t.Spares t') t := by
  rw [OAuthHost.chosen]
  refine wp_raising_bind (fun _ _ => Spares.refl t) fun _ _ => ?_
  refine wp_raising_bind (fun _ _ => Spares.refl t) fun metadata _ => ?_
  refine wp_ensure_bind (fun _ => Spares.refl t) fun _ => ?_
  refine wp_ensure_bind (fun _ => Spares.refl t) fun _ => ?_
  refine wp_raising_bind (fun _ _ => Spares.refl t) fun authorizationEndpoint _ => ?_
  refine wp_raising_bind (fun _ _ => Spares.refl t) fun tokenEndpoint _ => ?_
  refine wp_raising_bind (fun _ _ => Spares.refl t) fun _ _ => ?_
  refine wp_raising_bind (fun _ _ => Spares.refl t) fun _ _ => ?_
  rw [wp_bind]
  refine (host.getClientInfo_calm _ _ t).mono (fun existing t' calm => ?_) fun _ t' calm => calm.spares
  dsimp only
  split
  · rw [wp_bind]
    have fresh' := (calm.flows draws.authorizationId draws.flowIdentity).trans fresh
    exact (host.beginFlow_wp fresh').mono (fun b u begins => calm.begins begins)
      fun _ u spares => calm.then_spares spares
  · refine wp_raising_bind (fun _ _ => calm.spares) fun registration _ => ?_
    refine wp_raising_bind (fun _ _ => calm.spares) fun _ _ => ?_
    exact calm.spares

theorem OAuthHost.advance_wp {call : AuthorizeCall} {reply : Except OAuthFault HttpReply}
    {draws : OAuthDraws} {now : Time}
    (fresh : t.vault.get? ⟨.flow draws.authorizationId, draws.flowIdentity⟩ = none) :
    wp (host.advance call reply m draws now) (fun p t' => p.Leaves host t t')
      (fun _ t' => t.Spares t') t := by
  rw [OAuthHost.advance]
  refine wp_raising_bind (fun _ _ => Spares.refl t) fun reply _ => ?_
  cases call.phase with
  | resource path =>
      refine wp_raising_bind (fun _ _ => Spares.refl t) fun _ _ => ?_
      split
      · exact wp_raising_bind (fun _ _ => Spares.refl t) fun _ _ => Spares.refl t
      · exact wp_raising_bind (fun _ _ => Spares.refl t) fun _ _ => Spares.refl t
  | root =>
      refine wp_raising_bind (fun _ _ => Spares.refl t) fun _ _ => ?_
      exact wp_raising_bind (fun _ _ => Spares.refl t) fun _ _ => Spares.refl t
  | server resource issuer => exact host.chosen_wp fresh
  | registration resource issuer tokenEndpoint endpoint issuerRequired =>
      refine wp_raising_bind (fun _ _ => Spares.refl t) fun _ _ => ?_
      refine wp_raising_bind (fun _ _ => Spares.refl t) fun client _ => ?_
      refine wp_ensure_bind (fun _ => Spares.refl t) fun _ => ?_
      rw [wp_bind]
      refine (host.setCredential_calm _ _ _ _ _ t).mono (fun _ t' calm => ?_) fun _ t' calm => calm.spares
      rw [wp_bind]
      have fresh' := (calm.flows draws.authorizationId draws.flowIdentity).trans fresh
      exact (host.beginFlow_wp fresh').mono (fun b u begins => calm.begins begins)
        fun _ u spares => calm.then_spares spares

/-! ## The pieces of a callback -/

theorem advanceAuthorization_wp (key : Hash) (record : OAuthAuthorization) (status : OAuthStatus) :
    wp (advanceAuthorization key record status (if status = .authorized then none else record.vaultRef))
      (fun value t' => value = record.to status ∧ t.Moved key record status t') (fun _ t' => t' = t) t := by
  rw [advanceAuthorization, wp_bind, wp_get]
  refine wp_raising_bind (fun _ _ => rfl) fun rows written => ?_
  obtain ⟨current, rfl⟩ := Records.compareAndSet_eq_ok.mp (mapError_eq_ok.mp written)
  rw [wp_bind, wp_modify, wp_pure]
  exact ⟨rfl, current, fun k => Table.get?_put .., fun _ _ _ found => .inl found⟩

/-- What a callback has found when it goes on. -/
structure CallbackCall.Reads (host : OAuthHost) (x : CallbackCall) (t : OAuthTables) (now : Time) : Prop where
  phase : x.phase = .profile
  key : x.key = host.sha256 x.state
  found : t.authorizations.get x.key = some x.record
  pending : x.record.status = .pending
  since : x.since = now
  early : now < x.record.expiresAt
  flow : ∃ reference, x.record.vaultRef = some reference ∧
    reference.target = .flow x.record.authorizationId ∧ t.vault.get? reference = some (.flow x.flow)
  state : x.flow.state = x.state

theorem readFlow_wp (record : OAuthAuthorization) :
    wp (readFlow m record) (fun flow t' => t' = t ∧ ∃ reference, record.vaultRef = some reference ∧
      reference.target = .flow record.authorizationId ∧ t.vault.get? reference = some (.flow flow))
      (fun _ t' => t' = t) t := by
  rw [readFlow]
  refine wp_raising_bind (fun _ _ => rfl) fun reference named => ?_
  rw [wp_bind]
  refine (vaultGet_wp _ reference _).mono (fun v t' read => ?_) fun _ _ same => same
  obtain ⟨rfl, target, found⟩ := read
  cases v with
  | flow flow => exact ⟨rfl, reference, orThrow_eq_ok.mp named, target, found⟩
  | tokens => exact rfl
  | client => exact rfl

/-- A callback reads, or is refused, or records that the authorization was denied. -/
theorem OAuthHost.callback_wp (params : CallbackParams) (now : Time) :
    wp (host.callback params m now) (fun x t' => t' = t ∧ x.Reads host t now)
      (fun _ t' => t' = t ∨ ∃ key record, t.authorizations.get key = some record ∧
        record.status = .pending ∧ t.Moved key record .denied t') t := by
  rw [OAuthHost.callback]
  refine wp_raising_bind (fun _ _ => .inl rfl) fun state _ => ?_
  refine wp_ensure_bind (fun _ => .inl rfl) fun _ => ?_
  rw [wp_bind, wp_get]
  refine wp_raising_bind (fun _ _ => .inl rfl) fun record found => ?_
  have found := orThrow_eq_ok.mp found
  refine wp_ensure_bind (fun _ => .inl rfl) fun open_ => ?_
  rw [wp_bind]
  refine (readFlow_wp record).mono (fun flow t' read => ?_) fun _ _ same => .inl same
  obtain ⟨rfl, flow⟩ := read
  refine wp_ensure_bind (fun _ => .inl rfl) fun state => ?_
  refine wp_ensure_bind (fun _ => .inl rfl) fun _ => ?_
  split
  · exact ⟨rfl, {
      phase := rfl, key := rfl, found, pending := open_.1, since := rfl, early := open_.2, flow, state }⟩
  · rw [wp_bind]
    refine (advanceAuthorization_wp _ record .denied).mono (fun _ t' moved => ?_) fun _ _ same => .inl same
    exact .inr ⟨_, record, found, open_.1, moved.2⟩

theorem CallbackCall.claim_wp (x : CallbackCall) (profile : Option OAuthProfile) :
    wp (x.claim profile) (fun y t' =>
        y = { x with serverRevision := x.record.configRevision, phase := .access (x.record.to .exchanging) } ∧
        t.Moved x.key x.record .exchanging t')
      (fun _ t' => t' = t) t := by
  rw [CallbackCall.claim]
  refine wp_raising_bind (fun _ _ => rfl) fun profile _ => ?_
  refine wp_ensure_bind (fun _ => rfl) fun same => ?_
  rw [wp_bind]
  refine (advanceAuthorization_wp _ x.record .exchanging).mono (fun _ t' moved => ?_) fun _ _ same => same
  obtain ⟨rfl, moved⟩ := moved
  rw [same]
  exact ⟨rfl, moved⟩

/-- The record of a key is claimed. -/
structure OAuthTables.Claimed (t : OAuthTables) (key : Hash) (claimed : OAuthAuthorization) : Prop where
  row : t.authorizations.get? key = some { revision := claimed.revision, payload := claimed }
  status : claimed.status = .exchanging

theorem OAuthTables.Claimed.get {key : Hash} {claimed : OAuthAuthorization} (h : t.Claimed key claimed) :
    t.authorizations.get key = some claimed :=
  Records.get_eq_some.mpr ⟨_, h.row, rfl⟩

theorem failExchange_wp {key : Hash} {claimed : OAuthAuthorization} (h : t.Claimed key claimed) :
    wp (failExchange key) (fun _ t' => t.Moved key claimed .failedRequiresReauthorization t')
      (fun _ _ => False) t := by
  rw [failExchange, wp_bind, wp_get, h.get]
  dsimp only
  rw [if_pos h.status, wp_bind, advanceAuthorization, wp_bind, wp_get]
  have current := Records.revision_of_get h.row
  refine wp_raising_bind (fun e refused => ?_) fun rows written => ?_
  · rw [Records.compareAndSet, Option.getD_some, require_pos _ current] at refused
    cases refused
  · obtain ⟨-, rfl⟩ := Records.compareAndSet_eq_ok.mp (mapError_eq_ok.mp written)
    exact ⟨current, fun k => Table.get?_put .., fun _ _ _ found => .inl found⟩

/-- A record that is no longer claimed is left alone. -/
theorem failExchange_decided {key : Hash} {record : OAuthAuthorization}
    (found : t.authorizations.get key = some record) (decided : record.status ≠ .exchanging) :
    wp (failExchange key) (fun _ t' => t' = t) (fun _ t' => t' = t) t := by
  rw [failExchange, wp_bind, wp_get, found]
  dsimp only
  rw [if_neg decided]
  exact rfl

theorem CallbackCall.permit_wp {x : CallbackCall} {claimed : OAuthAuthorization} {ctx : AccessContext}
    (h : t.Claimed x.key claimed) :
    wp (x.permit host m ctx) (fun _ t' => t' = t ∧ host.permitUrl m ctx x.flow.tokenEndpoint = .ok ())
      (fun _ t' => t.Moved x.key claimed .failedRequiresReauthorization t') t := by
  rw [CallbackCall.permit, wp_tryCatch]
  refine wp_raising (fun e _ => ?_) fun _ admitted => ⟨rfl, admitted⟩
  rw [wp_bind]
  exact (failExchange_wp h).mono (fun _ _ moved => moved) fun _ _ raised => raised.elim

/-- The record of a callback that ends is authorized, or has failed. -/
def CallbackCall.Ended (x : CallbackCall) (claimed : OAuthAuthorization) (t t' : OAuthTables) : Prop :=
  t.Moved x.key claimed .failedRequiresReauthorization t' ∨ t.Moved x.key claimed .authorized t'

theorem CallbackCall.redeem_wp {x : CallbackCall} {claimed : OAuthAuthorization}
    {reply : Except OAuthFault HttpReply} {draws : OAuthDraws} (h : t.Claimed x.key claimed)
    (reference : claimed.vaultRef = x.record.vaultRef) :
    wp (x.redeem host claimed reply m draws) (fun _ t' => x.Ended claimed t t')
      (fun _ t' => x.Ended claimed t t') t := by
  -- What the handler does before and after the record is authorized.
  have fails {t' : OAuthTables} (calm : t.Calm t') (e : OAuthFault) :
      wp (failExchange x.key >>= fun _ => throw e : OAuthM Unit) (fun _ u => x.Ended claimed t u)
        (fun _ u => x.Ended claimed t u) t' := by
    rw [wp_bind]
    have claimed' : t'.Claimed x.key claimed := ⟨calm.authorizations ▸ h.row, h.status⟩
    exact (failExchange_wp claimed').mono (fun _ u moved => .inl (calm.moved moved))
      fun _ _ raised => raised.elim
  have stays {t' : OAuthTables} (moved : t.Moved x.key claimed .authorized t') (e : OAuthFault) :
      wp (failExchange x.key >>= fun _ => throw e : OAuthM Unit) (fun _ u => x.Ended claimed t u)
        (fun _ u => x.Ended claimed t u) t' := by
    rw [wp_bind]
    have found : t'.authorizations.get x.key = some (claimed.to .authorized) := by
      rw [Records.get, moved.rows, if_pos rfl]
      rfl
    refine (failExchange_decided found fun same => by cases same).mono (fun _ u same => ?_) fun _ u same => ?_
    · exact .inr (same ▸ moved)
    · exact .inr (same ▸ moved)
  rw [CallbackCall.redeem, wp_tryCatch]
  refine wp_raising_bind (fun e _ => fails (Calm.refl t) e) fun reply _ => ?_
  refine wp_raising_bind (fun e _ => fails (Calm.refl t) e) fun _ _ => ?_
  refine wp_raising_bind (fun e _ => fails (Calm.refl t) e) fun token _ => ?_
  rw [wp_bind]
  refine (host.setCredential_calm _ _ _ _ _ t).mono (fun _ t' calm => ?_) fun e _ calm => fails calm e
  rw [wp_bind]
  refine (advanceAuthorization_wp x.key claimed .authorized).mono (fun _ u moved => ?_)
    fun e _ same => same ▸ fails calm e
  have moved : t.Moved x.key claimed .authorized u := calm.moved moved.2
  refine wp_raising_bind (fun e _ => stays moved e) fun named present => ?_
  have present := orThrow_eq_ok.mp present
  rw [vaultDelete, wp_bind]
  refine (vaultGet_wp _ _ _).mono (fun v u' read => ?_) fun e u' same => same ▸ stays moved e
  obtain ⟨rfl, -, -⟩ := read
  refine wp_raise_bind (fun e _ => stays moved e) fun _ => .inr ⟨moved.current, moved.rows, ?_⟩
  intro id identity v found
  rcases moved.flows id identity v found with kept | taken
  · by_cases same : VaultReference.mk (.flow id) identity = named
    · exact .inr ⟨rfl, by rw [reference, present, same]⟩
    · exact .inl (by rw [Table.get?_erase, if_neg same, kept])
  · exact .inr taken

end Pieces

/-! ## What a step can do -/

/-- A claim that a callback holds. -/
def CallbackPhase.claimed : CallbackPhase → Option OAuthAuthorization
  | .profile => none
  | .access claimed => some claimed
  | .permit claimed _ => some claimed
  | .token claimed => some claimed

def OAuthWorld.Returning (w : OAuthWorld) (i : Nat) (x : CallbackCall) : Prop :=
  w.calls i = some (.returning x)

/-- What the status of a record may come to next. -/
def OAuthStatus.Next : OAuthStatus → OAuthStatus → Prop
  | .pending, .denied => True
  | .pending, .exchanging => True
  | .exchanging, .authorized => True
  | .exchanging, .failedRequiresReauthorization => True
  | _, _ => False

inductive OAuthWorld.Stepped (host : OAuthHost) (w : OAuthWorld) : OAuthWorld → Prop where
  /-- No callback goes on. -/
  | quiet {w' : OAuthWorld} : w.tables.Spares w'.tables → w'.begun = w.begun → w'.sent = w.sent →
      (∀ i x, w'.Returning i x → w.Returning i x) → Stepped host w w'
  | begins {b : BegunAuthorization} {tables : OAuthTables} {i : Nat} : w.tables.Begins host b tables →
      Stepped host w { w.set i none tables with begun := b :: w.begun }
  | returns {x : CallbackCall} {i : Nat} : x.Reads host w.tables w.now →
      Stepped host w (w.set i (some (.returning x)) w.tables)
  | denies {key : Hash} {record : OAuthAuthorization} {tables : OAuthTables} :
      w.tables.authorizations.get key = some record → record.status = .pending →
      w.tables.Moved key record .denied tables → Stepped host w { w with tables }
  | claims {i : Nat} {x : CallbackCall} {tables : OAuthTables} : w.Returning i x → x.phase = .profile →
      w.tables.Moved x.key x.record .exchanging tables →
      Stepped host w (w.set i (some (.returning { x with
        serverRevision := x.record.configRevision, phase := .access (x.record.to .exchanging) })) tables)
  | goes {i : Nat} {x : CallbackCall} {claimed : OAuthAuthorization} {ctx : AccessContext} :
      w.Returning i x → x.phase = .access claimed →
      Stepped host w (w.set i (some (.returning { x with phase := .permit claimed ctx })) w.tables)
  | sends {i : Nat} {x : CallbackCall} {claimed : OAuthAuthorization} {m : OAuthMoment} {ctx : AccessContext} :
      w.Returning i x → x.phase = .permit claimed ctx → host.permitUrl m ctx x.flow.tokenEndpoint = .ok () →
      Stepped host w { w.set i (some (.returning { x with phase := .token claimed })) w.tables with
        sent := x.request m ctx :: w.sent }
  | fails {i : Nat} {x : CallbackCall} {claimed : OAuthAuthorization} {tables : OAuthTables} :
      w.Returning i x → x.phase.claimed = some claimed →
      w.tables.Moved x.key claimed .failedRequiresReauthorization tables →
      Stepped host w (w.set i none tables)
  | succeeds {i : Nat} {x : CallbackCall} {claimed : OAuthAuthorization} {tables : OAuthTables} :
      w.Returning i x → x.phase = .token claimed → w.tables.Moved x.key claimed .authorized tables →
      Stepped host w (w.set i none tables)

/-! ## The invariant -/

/-- A record is one that an authorization has come to. -/
structure BegunAuthorization.Became (b : BegunAuthorization) (record : OAuthAuthorization) : Prop where
  same : record = { b.record with
    revision := record.revision, status := record.status, vaultRef := record.vaultRef }
  positive : 1 ≤ record.revision
  first : record.revision = 1 ↔ record.status = .pending
  vaultRef : record.status ≠ .authorized → record.vaultRef = b.record.vaultRef

/-- The vault has the flow of an authorization. -/
def OAuthTables.HasFlow (t : OAuthTables) (b : BegunAuthorization) : Prop :=
  ∃ identity, b.record.vaultRef = some ⟨.flow b.record.authorizationId, identity⟩ ∧
    t.vault.get? ⟨.flow b.record.authorizationId, identity⟩ = some (.flow b.flow)

/-- A request redeems an authorization, at an endpoint that the policy allows. -/
structure TokenRequest.Redeems (host : OAuthHost) (s : TokenRequest) (b : BegunAuthorization) : Prop where
  key : s.key = b.key ∧ s.key = host.sha256 s.state
  who : s.ownerId = b.record.ownerId ∧ s.serverId = b.record.serverId
  unchanged : s.serverRevision = b.record.configRevision
  early : s.since < b.record.expiresAt
  state : s.state = b.flow.state
  asked : ("state", s.state) ∈ b.query ∧ ("code_challenge", host.challenge s.verifier) ∈ b.query ∧
    ("redirect_uri", s.redirectUri) ∈ b.query ∧ ("resource", s.resource) ∈ b.query
  endpoint : s.endpoint = b.flow.tokenEndpoint
  admitted : ∃ parts addresses, host.lib.urlsplit s.endpoint = some parts ∧ parts.Secure ∧
    s.network.endpoint host.lib s.endpoint s.ctx "mcp" true none none = .ok addresses

/-- What is known of the records, given the requests that have been made. -/
structure OAuthTables.Recorded (t : OAuthTables) (sent : List TokenRequest) (b : BegunAuthorization)
    (record : Record OAuthAuthorization) : Prop where
  became : b.Became record.payload
  revision : record.revision = record.payload.revision
  flow : record.payload.status ≠ .authorized → t.HasFlow b
  unsent : record.payload.status = .pending ∨ record.payload.status = .denied →
    ∀ s ∈ sent, s.key ≠ b.key
  sent : record.payload.status = .authorized → ∃ s ∈ sent, s.key = b.key

/-- A callback is of an authorization; one that holds a claim has claimed its record. -/
structure OAuthWorld.Carries (w : OAuthWorld) (x : CallbackCall) (b : BegunAuthorization) : Prop where
  key : x.key = b.key
  record : x.record = b.record
  flow : x.flow = b.flow
  state : x.state = b.flow.state
  early : x.since < b.record.expiresAt
  claimed : ∀ claimed, x.phase.claimed = some claimed → w.tables.Claimed b.key claimed ∧
    claimed.vaultRef = b.record.vaultRef ∧ x.serverRevision = b.record.configRevision
  unsent : ∀ claimed ctx, x.phase = .access claimed ∨ x.phase = .permit claimed ctx →
    ∀ s ∈ w.sent, s.key ≠ b.key
  sent : ∀ claimed, x.phase = .token claimed → ∃ s ∈ w.sent, s.key = b.key

structure OAuthWorld.Sound (host : OAuthHost) (w : OAuthWorld) : Prop where
  distinct : (w.begun.map BegunAuthorization.key).Nodup
  asks : ∀ b ∈ w.begun, b.key = host.sha256 b.flow.state ∧ ("state", b.flow.state) ∈ b.query ∧
    ("code_challenge", host.challenge b.flow.verifier) ∈ b.query ∧
    ("redirect_uri", b.flow.redirectUri) ∈ b.query ∧ ("resource", b.flow.resource) ∈ b.query
  start : ∀ b ∈ w.begun, b.record.status = .pending ∧ b.record.revision = 1
  recorded : ∀ b ∈ w.begun, ∃ record, w.tables.authorizations.get? b.key = some record ∧
    w.tables.Recorded w.sent b record
  only : ∀ key record, w.tables.authorizations.get? key = some record → ∃ b ∈ w.begun, b.key = key
  calls : ∀ i x, w.Returning i x → ∃ b ∈ w.begun, w.Carries x b
  single : ∀ i j x y, w.Returning i x → w.Returning j y → x.phase.claimed.isSome →
    y.phase.claimed.isSome → x.key = y.key → i = j
  once : (w.sent.map TokenRequest.key).Nodup
  redeems : ∀ s ∈ w.sent, ∃ b ∈ w.begun, s.Redeems host b

section Steps

variable {w w' : OAuthWorld} {a : OAuthAction} {b : BegunAuthorization} {x : CallbackCall} {i j : Nat}

theorem OAuthWorld.returning_set {call : Option OAuthCall} {tables : OAuthTables} :
    (w.set i call tables).Returning j x ↔ if j = i then call = some (.returning x) else w.Returning j x := by
  unfold Returning set
  dsimp only
  rw [Function.update_apply]
  split
  · rfl
  · rfl

/-- A call that ends, or that is no callback, goes on as no callback. -/
theorem OAuthWorld.returning_old {call : Option OAuthCall} {tables : OAuthTables}
    (other : ∀ x, call ≠ some (.returning x)) (h : (w.set i call tables).Returning j x) :
    j ≠ i ∧ w.Returning j x := by
  rw [returning_set] at h
  split at h
  · exact absurd h (other x)
  · exact ⟨‹_›, h⟩

theorem BegunAuthorization.Became.pending {record : OAuthAuthorization} (became : b.Became record)
    (start : b.record.status = .pending ∧ b.record.revision = 1) (pending : record.status = .pending) :
    record = b.record := by
  have revision := became.first.mpr pending
  have vaultRef := became.vaultRef (by rw [pending]; decide)
  rw [became.same, revision, pending, vaultRef, ← start.1, ← start.2]

namespace OAuthWorld.Sound

/-- Two authorizations with one key are the same. -/
theorem unique (sound : w.Sound host) {b b' : BegunAuthorization} (hb : b ∈ w.begun) (hb' : b' ∈ w.begun)
    (same : b.key = b'.key) : b = b' :=
  List.inj_on_of_nodup_map sound.distinct hb hb' same

/-- The authorization of a record. -/
theorem owner (sound : w.Sound host) {key : Hash} {record : OAuthAuthorization}
    (found : w.tables.authorizations.get key = some record) :
    ∃ b ∈ w.begun, b.key = key ∧ ∃ row, w.tables.authorizations.get? key = some row ∧
      row.payload = record ∧ w.tables.Recorded w.sent b row := by
  obtain ⟨row, present, same⟩ := Records.get_eq_some.mp found
  obtain ⟨b, hb, rfl⟩ := sound.only key row present
  obtain ⟨row', present', recorded⟩ := sound.recorded b hb
  cases present.symm.trans present'
  exact ⟨b, hb, rfl, row, present, same, recorded⟩

/-- The flows of two authorizations that are not done are apart. -/
theorem apart (sound : w.Sound host) {b b' : BegunAuthorization} (hb : b ∈ w.begun) (hb' : b' ∈ w.begun)
    (flow : w.tables.HasFlow b) (flow' : w.tables.HasFlow b') (same : b.record.vaultRef = b'.record.vaultRef) :
    b = b' := by
  obtain ⟨identity, named, found⟩ := flow
  obtain ⟨identity', named', found'⟩ := flow'
  rw [named, named', Option.some.injEq] at same
  rw [same, found', Option.some.injEq, VaultValue.flow.injEq] at found
  refine sound.unique hb hb' ?_
  rw [(sound.asks b hb).1, (sound.asks b' hb').1, found]

end OAuthWorld.Sound

/-- A piece of a callback. -/
theorem OAuthWorld.Sound.goesOn (sound : w.Sound host) (here : w.Returning i x)
    (reply : Except OAuthFault HttpReply) (m : OAuthMoment) (draws : OAuthDraws) :
    w.Stepped host (w.goOn host i x reply m draws) := by
  obtain ⟨b, hb, carries⟩ := sound.calls i x here
  have ended : w.Stepped host (w.set i none w.tables) :=
    .quiet (Spares.refl _) rfl rfl fun j x h => (returning_old (fun _ same => by cases same) h).2
  unfold OAuthWorld.goOn
  split
  case h_1 phase =>
    have does := x.claim_wp (t := w.tables) (w.profiles x.record.serverId)
    split
    case h_1 y tables ran =>
      obtain ⟨rfl, moved⟩ := does.of_ok ran
      exact .claims here phase moved
    case h_2 e tables ran =>
      cases does.of_error ran
      exact ended
  case h_2 claimed phase =>
    split
    case h_1 ctx _ => exact .goes here phase
    case h_2 => exact ended
  case h_3 claimed ctx phase =>
    have held := carries.claimed claimed (by rw [phase]; rfl)
    have does : wp (x.permit host m ctx) _ _ _ := x.permit_wp (carries.key ▸ held.1)
    split
    case h_1 tables ran =>
      obtain ⟨rfl, admitted⟩ := does.of_ok ran
      exact .sends here phase admitted
    case h_2 e tables ran => exact .fails here (by rw [phase]; rfl) (does.of_error ran)
  case h_4 claimed phase =>
    have held := carries.claimed claimed (by rw [phase]; rfl)
    have reference : claimed.vaultRef = x.record.vaultRef := carries.record ▸ held.2.1
    have does : wp (x.redeem host claimed reply m draws) _ _ _ :=
      x.redeem_wp (carries.key ▸ held.1) reference
    have ends {tables : OAuthTables} (ended : x.Ended claimed w.tables tables) :
        w.Stepped host (w.set i none tables) := by
      rcases ended with failed | authorized
      · exact .fails here (by rw [phase]; rfl) failed
      · exact .succeeds here phase authorized
    split
    case h_1 tables ran => exact ends (does.of_ok ran)
    case h_2 e tables ran => exact ends (does.of_error ran)

/-- What a step does, from a state in which the claims are sound. -/
theorem OAuthWorld.Sound.stepped (sound : w.Sound host) (draws : w.Draws a) (next : w.next host a = some w') :
    w.Stepped host w' := by
  cases a with
  | tick now =>
      cases next
      exact .quiet (Spares.refl _) rfl rfl fun _ _ h => h
  | configure server profile =>
      cases next
      exact .quiet (Spares.refl _) rfl rfl fun _ _ h => h
  | authorize i owner server m =>
      unfold OAuthWorld.next at next
      dsimp only at next
      split at next
      case h_1 => cases next
      case h_2 =>
        split at next
        case h_1 call _ =>
          cases next
          exact .quiet (Spares.refl _) rfl rfl fun j x h => (returning_old (fun _ same => by cases same) h).2
        case h_2 =>
          cases next
          exact .quiet (Spares.refl _) rfl rfl fun _ _ h => h
  | callback i params m =>
      unfold OAuthWorld.next at next
      dsimp only at next
      have does := host.callback_wp (t := w.tables) (m := m) params w.now
      split at next
      case h_1 => cases next
      case h_2 =>
        split at next
        case h_1 x tables ran =>
          obtain ⟨rfl, reads⟩ := does.of_ok ran
          cases next
          exact .returns reads
        case h_2 e tables ran =>
          cases next
          rcases does.of_error ran with rfl | ⟨key, record, found, pending, moved⟩
          · exact .quiet (Spares.refl _) rfl rfl fun _ _ h => h
          · exact .denies found pending moved
  | proceed i reply m draws' =>
      unfold OAuthWorld.next at next
      dsimp only at next
      split at next
      case h_1 => cases next
      case h_2 call here =>
        have does : wp (host.advance call reply m _ w.now) _ _ w.tables := host.advance_wp draws
        split at next
        case h_1 call' tables ran =>
          cases next
          exact .quiet (does.of_ok ran) rfl rfl
            fun j x h => (returning_old (fun _ same => by cases same) h).2
        case h_2 b tables ran =>
          cases next
          exact .begins (does.of_ok ran)
        case h_3 e tables ran =>
          cases next
          exact .quiet (does.of_error ran) rfl rfl
            fun j x h => (returning_old (fun _ same => by cases same) h).2
      case h_3 x here =>
        cases next
        exact sound.goesOn here reply m draws'
  | drop i =>
      cases next
      exact .quiet (Spares.refl _) rfl rfl fun j x h => (returning_old (fun _ same => by cases same) h).2

/-! ## A step keeps the invariant -/

theorem OAuthWorld.Carries.keeps (carries : w.Carries x b)
    (row : x.phase.claimed.isSome → w'.tables.authorizations.get? b.key = w.tables.authorizations.get? b.key)
    (sent : w'.sent = w.sent) : w'.Carries x b where
  key := carries.key
  record := carries.record
  flow := carries.flow
  state := carries.state
  early := carries.early
  claimed claimed holds := by
    obtain ⟨held, rest⟩ := carries.claimed claimed holds
    have row := row (by rw [holds]; rfl)
    exact ⟨⟨row.trans held.row, held.status⟩, rest⟩
  unsent := sent ▸ carries.unsent
  sent := sent ▸ carries.sent

theorem OAuthTables.Recorded.keeps {t t' : OAuthTables} {sent : List TokenRequest}
    {row : Record OAuthAuthorization} (recorded : t.Recorded sent b row)
    (flow : t.HasFlow b → row.payload.status ≠ .authorized → t'.HasFlow b) : t'.Recorded sent b row where
  became := recorded.became
  revision := recorded.revision
  flow other := flow (recorded.flow other) other
  unsent := recorded.unsent
  sent := recorded.sent

namespace OAuthWorld.Sound

/-- Where the records and the flows stay, and no claim is made or lost. -/
theorem quiet (sound : w.Sound host) (tables : w.tables.Spares w'.tables) (begun : w'.begun = w.begun)
    (sent : w'.sent = w.sent) (calls : ∀ i x, w'.Returning i x → w.Returning i x) : w'.Sound host where
  distinct := begun ▸ sound.distinct
  asks := begun ▸ sound.asks
  start := begun ▸ sound.start
  recorded b hb := by
    obtain ⟨row, found, recorded⟩ := sound.recorded b (begun ▸ hb)
    refine ⟨row, tables.authorizations ▸ found, ?_⟩
    rw [sent]
    refine recorded.keeps fun ⟨identity, named, found⟩ _ => ⟨identity, named, tables.flows _ _ _ found⟩
  only key row found := begun ▸ sound.only key row (tables.authorizations ▸ found)
  calls i x here := by
    obtain ⟨b, hb, carries⟩ := sound.calls i x (calls i x here)
    exact ⟨b, begun ▸ hb, carries.keeps (fun _ => by rw [tables.authorizations]) sent⟩
  single i j x y hx hy := sound.single i j x y (calls i x hx) (calls j y hy)
  once := sent ▸ sound.once
  redeems := by
    rw [sent, begun]
    exact sound.redeems

theorem begins (sound : w.Sound host) {tables : OAuthTables} (begins : w.tables.Begins host b tables) :
    ({ w.set i none tables with begun := b :: w.begun } : OAuthWorld).Sound host := by
  have absent : w.tables.authorizations.get? b.key = none := by
    cases found : w.tables.authorizations.get? b.key with
    | none => rfl
    | some row =>
        obtain ⟨b', hb', same⟩ := sound.only _ row found
        obtain ⟨row', found', recorded⟩ := sound.recorded b' hb'
        rw [same] at found'
        cases found.symm.trans found'
        have positive := recorded.became.positive
        rw [← recorded.revision, ← Records.revision_of_get found, begins.free] at positive
        cases positive
  have other : ∀ b' ∈ w.begun, b'.key ≠ b.key := by
    intro b' hb' same
    obtain ⟨row, found, -⟩ := sound.recorded b' hb'
    rw [same, absent] at found
    cases found
  have old : ∀ b' ∈ w.begun, tables.authorizations.get? b'.key = w.tables.authorizations.get? b'.key := by
    intro b' hb'
    rw [begins.rows, if_neg (other b' hb')]
  have unsent : ∀ s ∈ w.sent, s.key ≠ b.key := by
    intro s hs same
    obtain ⟨b', hb', redeems⟩ := sound.redeems s hs
    exact other b' hb' (redeems.key.1.symm.trans same)
  have before {j : Nat} {y : CallbackCall} (here : (w.set i none tables).Returning j y) : w.Returning j y :=
    (returning_old (fun _ same => by cases same) here).2
  refine {
    distinct := List.nodup_cons.mpr ⟨fun listed => ?_, sound.distinct⟩
    asks := fun b' hb' => ?_
    start := fun b' hb' => ?_
    recorded := fun b' hb' => ?_
    only := fun key row found => ?_
    calls := fun j x here => ?_
    single := fun j k x y hx hy => ?_
    once := sound.once
    redeems := fun s hs => ?_ }
  · obtain ⟨b', hb', same⟩ := List.mem_map.mp listed
    exact other b' hb' same
  · rcases List.mem_cons.mp hb' with rfl | hb'
    · exact ⟨begins.key, begins.asks⟩
    · exact sound.asks b' hb'
  · rcases List.mem_cons.mp hb' with rfl | hb'
    · exact ⟨begins.status, begins.revision⟩
    · exact sound.start b' hb'
  · rcases List.mem_cons.mp hb' with rfl | hb'
    · refine ⟨_, (begins.rows _).trans (if_pos rfl), ?_⟩
      exact {
        became := ⟨rfl, by rw [begins.revision], by simp [begins.revision, begins.status], fun _ => rfl⟩
        revision := begins.revision.symm
        flow := fun _ => begins.kept
        unsent := fun _ => unsent
        sent := fun authorized => by simp [begins.status] at authorized }
    · obtain ⟨row, found, recorded⟩ := sound.recorded b' hb'
      refine ⟨row, (old b' hb').trans found, recorded.keeps ?_⟩
      exact fun ⟨identity, named, found⟩ _ => ⟨identity, named, begins.flows _ _ _ found⟩
  · have found : tables.authorizations.get? key = some row := found
    rw [begins.rows] at found
    split at found
    · exact ⟨b, List.mem_cons_self, ‹key = b.key›.symm⟩
    · obtain ⟨b', hb', same⟩ := sound.only key row found
      exact ⟨b', List.mem_cons_of_mem _ hb', same⟩
  · obtain ⟨b', hb', carries⟩ := sound.calls j x (before here)
    exact ⟨b', List.mem_cons_of_mem _ hb', carries.keeps (fun _ => old b' hb') rfl⟩
  · exact sound.single j k x y (before hx) (before hy)
  · obtain ⟨b', hb', redeems⟩ := sound.redeems s hs
    exact ⟨b', List.mem_cons_of_mem _ hb', redeems⟩

theorem returns (sound : w.Sound host) (reads : x.Reads host w.tables w.now) :
    (w.set i (some (.returning x)) w.tables).Sound host := by
  have fresh : x.phase.claimed = none := by rw [reads.phase]; rfl
  obtain ⟨b, hb, key, row, found, payload, recorded⟩ := sound.owner reads.found
  have record : x.record = b.record := by
    have pending : row.payload.status = .pending := payload ▸ reads.pending
    exact payload ▸ recorded.became.pending (sound.start b hb) pending
  have flow : x.flow = b.flow := by
    obtain ⟨reference, named, target, found⟩ := reads.flow
    obtain ⟨identity, named', found'⟩ := recorded.flow (by rw [payload, reads.pending]; decide)
    rw [record, named', Option.some.injEq] at named
    rw [← named, found', Option.some.injEq, VaultValue.flow.injEq] at found
    exact found.symm
  refine {
    sound with
    calls := fun j y here => ?_
    single := fun j k y z hy hz claims claims' same => ?_ }
  · rw [returning_set] at here
    split at here
    · cases here
      refine ⟨b, hb, {
        key := key.symm, record, flow
        state := flow ▸ reads.state.symm
        early := ?_
        claimed := fun claimed holds => by rw [fresh] at holds; cases holds
        unsent := fun claimed ctx holds => by
          rw [reads.phase] at holds
          rcases holds with holds | holds <;> cases holds
        sent := fun claimed holds => by rw [reads.phase] at holds; cases holds }⟩
      rw [reads.since, ← record]
      exact reads.early
    · obtain ⟨b', hb', carries⟩ := sound.calls j y here
      exact ⟨b', hb', carries.keeps (fun _ => rfl) rfl⟩
  · rw [returning_set] at hy hz
    split at hy
    · cases hy
      rw [fresh] at claims
      cases claims
    · split at hz
      · cases hz
        rw [fresh] at claims'
        cases claims'
      · exact sound.single j k y z hy hz claims claims' same

/-- A call that has claimed a record finds it so. -/
theorem claimed (sound : w.Sound host) (here : w.Returning i x) {claimed : OAuthAuthorization}
    (holds : x.phase.claimed = some claimed) :
    ∃ b ∈ w.begun, w.Carries x b ∧ w.tables.Claimed b.key claimed ∧
      w.tables.Recorded w.sent b { revision := claimed.revision, payload := claimed } := by
  obtain ⟨b, hb, carries⟩ := sound.calls i x here
  have held := (carries.claimed claimed holds).1
  obtain ⟨row, found, recorded⟩ := sound.recorded b hb
  cases held.row.symm.trans found
  exact ⟨b, hb, carries, held, recorded⟩

/-- A record comes to its next status, while the calls that hold no claim of it stay, and one call may go on
with a claim of it. -/
theorem moved (sound : w.Sound host) (hb : b ∈ w.begun) {row : Record OAuthAuthorization}
    {status : OAuthStatus} (found : w.tables.authorizations.get? b.key = some row)
    (next : row.payload.status.Next status) (moved : w.tables.Moved b.key row.payload status w'.tables)
    (begun : w'.begun = w.begun) (sent : w'.sent = w.sent)
    (authorized : status = .authorized → ∃ s ∈ w.sent, s.key = b.key)
    (denied : status = .denied → ∀ s ∈ w.sent, s.key ≠ b.key)
    (calls : ∀ j y, w'.Returning j y → w.Returning j y ∧ (y.phase.claimed.isSome → y.key ≠ b.key) ∨
      j = i ∧ y.key = b.key ∧ w'.Carries y b) : w'.Sound host := by
  obtain ⟨row', found', recorded⟩ := sound.recorded b hb
  cases found.symm.trans found'
  have unauthorized : row.payload.status ≠ .authorized := by
    intro same
    rw [same] at next
    cases status <;> exact next
  have notPending : status ≠ .pending := by
    rintro rfl
    cases h : row.payload.status <;> rw [h] at next <;> exact next
  have flow := recorded.flow unauthorized
  have kept {b' : BegunAuthorization} (hb' : b' ∈ w.begun) (has : w.tables.HasFlow b')
      (other : b'.key = b.key → status ≠ .authorized) : w'.tables.HasFlow b' := by
    obtain ⟨identity, named, present⟩ := has
    rcases moved.flows _ _ _ present with stays | ⟨done, taken⟩
    · exact ⟨identity, named, stays⟩
    · rw [recorded.became.vaultRef unauthorized, ← named] at taken
      exact absurd done (other (congrArg BegunAuthorization.key
        (sound.apart hb hb' flow ⟨identity, named, present⟩ taken)).symm)
  have old {b' : BegunAuthorization} (other : b'.key ≠ b.key) :
      w'.tables.authorizations.get? b'.key = w.tables.authorizations.get? b'.key := by
    rw [moved.rows, if_neg other]
  refine {
    distinct := begun ▸ sound.distinct
    asks := begun ▸ sound.asks
    start := begun ▸ sound.start
    recorded := fun b' hb' => ?_
    only := fun key row' found => ?_
    calls := fun j y here => ?_
    single := fun j k y z hy hz claims claims' same => ?_
    once := sent ▸ sound.once
    redeems := by rw [sent, begun]; exact sound.redeems }
  · rw [begun] at hb'
    by_cases same : b' = b
    · subst same
      refine ⟨_, (moved.rows _).trans (if_pos rfl), ?_⟩
      have positive := recorded.became.positive
      exact {
        became := {
          same := by
            rw [OAuthAuthorization.to, recorded.became.same]
          positive := Nat.le_add_left ..
          first := iff_of_false (by show row.payload.revision + 1 ≠ 1; omega) notPending
          vaultRef := fun other => (if_neg other).trans (recorded.became.vaultRef unauthorized) }
        revision := rfl
        flow := fun other => kept hb' flow fun _ => other
        unsent := by
          rintro (pending | is)
          · exact absurd pending notPending
          · exact sent ▸ denied is
        sent := fun done => sent ▸ authorized done }
    · have other : b'.key ≠ b.key := fun h => same (sound.unique hb' hb h)
      obtain ⟨row', found', recorded'⟩ := sound.recorded b' hb'
      rw [sent]
      exact ⟨row', (old other).trans found',
        recorded'.keeps fun has _ => kept hb' has fun h => absurd h other⟩
  · rw [begun]
    rw [moved.rows] at found
    split at found
    · exact ⟨b, hb, ‹key = b.key›.symm⟩
    · exact sound.only key row' found
  · rw [begun]
    rcases calls j y here with ⟨before, apart⟩ | ⟨-, -, carries⟩
    · obtain ⟨b', hb', carries⟩ := sound.calls j y before
      exact ⟨b', hb', carries.keeps (fun claims => old (carries.key ▸ apart claims)) sent⟩
    · exact ⟨b, hb, carries⟩
  · rcases calls j y hy with ⟨before, apart⟩ | ⟨rfl, key, -⟩
    · rcases calls k z hz with ⟨before', -⟩ | ⟨-, key', -⟩
      · exact sound.single j k y z before before' claims claims' same
      · exact absurd (same.trans key') (apart claims)
    · rcases calls k z hz with ⟨before', apart'⟩ | ⟨rfl, -, -⟩
      · exact absurd (same.symm.trans key) (apart' claims')
      · rfl

/-- A callback that holds the claim of a record ends, and the record comes to its next status. -/
theorem ends (sound : w.Sound host) {status : OAuthStatus} {tables : OAuthTables}
    {claimed : OAuthAuthorization} (here : w.Returning i x) (holds : x.phase.claimed = some claimed)
    (next : OAuthStatus.exchanging.Next status) (moved : w.tables.Moved x.key claimed status tables)
    (authorized : status = .authorized → ∃ s ∈ w.sent, s.key = x.key) :
    (w.set i none tables).Sound host := by
  obtain ⟨b, hb, carries, held, -⟩ := sound.claimed here holds
  rw [carries.key] at moved authorized
  refine sound.moved (i := i) hb held.row (held.status ▸ next) moved rfl rfl authorized
    (fun denied => ?_) fun j y there => ?_
  · rw [denied] at next
    exact next.elim
  · obtain ⟨other, there⟩ := returning_old (fun _ same => by cases same) there
    refine .inl ⟨there, fun claims same => other ?_⟩
    exact sound.single j i y x there here claims (by rw [holds]; rfl) (same.trans carries.key.symm)

/-- A callback goes on with its claim, and the records stay. -/
theorem goes (sound : w.Sound host) {phase : CallbackPhase} {sent : List TokenRequest} (here : w.Returning i x)
    {claimed : OAuthAuthorization} (holds : x.phase.claimed = some claimed)
    (holds' : phase.claimed = some claimed)
    (grows : ∀ s ∈ sent, s ∈ w.sent ∨ s.key = x.key) (keeps : ∀ s ∈ w.sent, s ∈ sent)
    (unsent : ∀ claimed ctx, phase = .access claimed ∨ phase = .permit claimed ctx →
      ∀ s ∈ sent, s.key ≠ x.key)
    (token : ∀ claimed, phase = .token claimed → ∃ s ∈ sent, s.key = x.key)
    (once : (sent.map TokenRequest.key).Nodup)
    (redeems : ∀ b ∈ w.begun, w.Carries x b → ∀ s ∈ sent, s ∈ w.sent ∨ s.Redeems host b) :
    ({ w.set i (some (.returning { x with phase })) w.tables with sent } : OAuthWorld).Sound host := by
  obtain ⟨b, hb, carries, held, recorded⟩ := sound.claimed here holds
  have cases' {j : Nat} {y : CallbackCall}
      (there : OAuthWorld.Returning
        { w.set i (some (.returning { x with phase })) w.tables with sent } j y) :
      j = i ∧ y = { x with phase } ∨ j ≠ i ∧ w.Returning j y := by
    have there : (w.set i (some (.returning { x with phase })) w.tables).Returning j y := there
    rw [returning_set] at there
    split at there
    · cases there
      exact .inl ⟨‹_›, rfl⟩
    · exact .inr ⟨‹_›, there⟩
  have apart {j : Nat} {y : CallbackCall} (other : j ≠ i) (there : w.Returning j y)
      (claims : y.phase.claimed.isSome) : y.key ≠ x.key :=
    fun same => other (sound.single j i y x there here claims (by rw [holds]; rfl) same)
  refine { sound with
    recorded := fun b' hb' => ?_
    calls := fun j y there => ?_
    single := fun j k y z hy hz claims claims' same => ?_
    once
    redeems := fun s hs => ?_ }
  · obtain ⟨row, found, recorded'⟩ := sound.recorded b' hb'
    refine ⟨row, found, { recorded' with
      unsent := fun idle s hs same => ?_
      sent := fun done => ?_ }⟩
    · rcases grows s hs with old | new
      · exact recorded'.unsent idle s old same
      · rw [carries.key, same] at new
        rw [new, held.row, Option.some.injEq] at found
        rw [← found, held.status] at idle
        rcases idle with idle | idle <;> cases idle
    · obtain ⟨s, hs, same⟩ := recorded'.sent done
      exact ⟨s, keeps s hs, same⟩
  · rcases cases' there with ⟨rfl, rfl⟩ | ⟨other, there⟩
    · refine ⟨b, hb, {
        key := carries.key, record := carries.record, flow := carries.flow, state := carries.state
        early := carries.early
        claimed := fun claimed' same => ?_
        unsent := fun claimed' ctx same => carries.key ▸ unsent claimed' ctx same
        sent := fun claimed' same => carries.key ▸ token claimed' same }⟩
      cases holds'.symm.trans same
      exact carries.claimed claimed holds
    · obtain ⟨b', hb', carries'⟩ := sound.calls j y there
      refine ⟨b', hb', { carries' with
        unsent := fun claimed' ctx same s hs => ?_
        sent := fun claimed' same => ?_ }⟩
      · rcases grows s hs with old | new
        · exact carries'.unsent claimed' ctx same s old
        · have claims : y.phase.claimed.isSome := by rcases same with same | same <;> rw [same] <;> rfl
          rw [new, ← carries'.key]
          exact (apart other there claims).symm
      · obtain ⟨s, hs, key⟩ := carries'.sent claimed' same
        exact ⟨s, keeps s hs, key⟩
  · rcases cases' hy with ⟨rfl, rfl⟩ | ⟨other, hy⟩
    · rcases cases' hz with ⟨rfl, rfl⟩ | ⟨other', hz⟩
      · rfl
      · exact absurd same.symm (apart other' hz claims')
    · rcases cases' hz with ⟨rfl, rfl⟩ | ⟨other', hz⟩
      · exact absurd same (apart other ‹w.Returning j y› claims)
      · exact sound.single j k y z hy hz claims claims' same
  · rcases redeems b hb carries s hs with old | new
    · exact sound.redeems s old
    · exact ⟨b, hb, new⟩

/-- No call holds a claim of a record that is pending. -/
theorem unheld (sound : w.Sound host) {key : Hash} {row : Record OAuthAuthorization}
    (found : w.tables.authorizations.get? key = some row) (pending : row.payload.status = .pending)
    (here : w.Returning i x) (claims : x.phase.claimed.isSome) : x.key ≠ key := by
  rintro rfl
  obtain ⟨claimed, holds⟩ := Option.isSome_iff_exists.mp claims
  obtain ⟨b, hb, carries, held, -⟩ := sound.claimed here holds
  have same := held.row
  rw [← carries.key, found, Option.some.injEq] at same
  rw [same, held.status] at pending
  cases pending

/-- A record that still has the revision that a callback has found is as the callback has found it. -/
theorem unchanged (sound : w.Sound host) (here : w.Returning i x)
    (current : w.tables.authorizations.revision x.key = x.record.revision) :
    ∃ b ∈ w.begun, w.Carries x b ∧ ∃ row, w.tables.authorizations.get? b.key = some row ∧
      row.payload = b.record ∧ row.payload.status = .pending ∧ w.tables.Recorded w.sent b row := by
  obtain ⟨b, hb, carries⟩ := sound.calls i x here
  obtain ⟨row, found, recorded⟩ := sound.recorded b hb
  have start := sound.start b hb
  rw [carries.key, Records.revision_of_get found, carries.record, start.2, recorded.revision] at current
  have pending := recorded.became.first.mp current
  exact ⟨b, hb, carries, row, found, recorded.became.pending start pending, pending, recorded⟩

theorem claims (sound : w.Sound host) {tables : OAuthTables} (here : w.Returning i x)
    (moved : w.tables.Moved x.key x.record .exchanging tables) :
    (w.set i (some (.returning { x with
      serverRevision := x.record.configRevision, phase := .access (x.record.to .exchanging) })) tables).Sound
      host := by
  obtain ⟨b, hb, carries, row, found, same, pending, recorded⟩ := sound.unchanged here moved.current
  rw [carries.key, carries.record, ← same] at moved
  refine sound.moved (i := i) hb found (by rw [pending]; trivial) moved rfl rfl (fun same => by cases same)
    (fun same => by cases same) fun j y there => ?_
  rw [returning_set] at there
  split at there
  · cases there
    refine .inr ⟨‹j = i›, carries.key, { carries with
      claimed := fun claimed holds => ?_
      unsent := fun _ _ _ => recorded.unsent (.inl pending)
      sent := fun claimed holds => by cases holds }⟩
    cases holds
    have row := (moved.rows b.key).trans (if_pos rfl)
    rw [same] at row
    rw [carries.record]
    exact ⟨⟨row, rfl⟩, rfl, rfl⟩
  · exact .inl ⟨there, sound.unheld found pending there⟩

theorem sends (sound : w.Sound host) {claimed : OAuthAuthorization} {m : OAuthMoment} {ctx : AccessContext}
    (here : w.Returning i x) (phase : x.phase = .permit claimed ctx)
    (admitted : host.permitUrl m ctx x.flow.tokenEndpoint = .ok ()) :
    ({ w.set i (some (.returning { x with phase := .token claimed })) w.tables with
      sent := x.request m ctx :: w.sent } : OAuthWorld).Sound host := by
  have holds : x.phase.claimed = some claimed := by rw [phase]; rfl
  have unsent : ∀ s ∈ w.sent, s.key ≠ x.key := by
    obtain ⟨b, hb, carries⟩ := sound.calls i x here
    rw [carries.key]
    exact carries.unsent claimed ctx (.inr phase)
  refine sound.goes here holds rfl (fun s hs => ?_) (fun s => List.mem_cons_of_mem _)
    (fun _ _ same => by rcases same with same | same <;> cases same)
    (fun _ _ => ⟨_, List.mem_cons_self, rfl⟩) (List.nodup_cons.mpr ⟨fun listed => ?_, sound.once⟩)
    fun b hb carries s hs => ?_
  · rcases List.mem_cons.mp hs with rfl | old
    · exact .inr rfl
    · exact .inl old
  · obtain ⟨s, hs, same⟩ := List.mem_map.mp listed
    exact unsent s hs same
  · rcases List.mem_cons.mp hs with rfl | old
    · right
      obtain ⟨parts, split, rest⟩ := bind_eq_ok.mp admitted
      obtain ⟨_, scheme, rest⟩ := bind_eq_ok.mp rest
      obtain ⟨_, form, rest⟩ := bind_eq_ok.mp rest
      obtain ⟨addresses, allowed, -⟩ := bind_eq_ok.mp rest
      have asks := sound.asks b hb
      have state := carries.state
      refine {
        key := ⟨carries.key, ?_⟩
        who := ⟨congrArg OAuthAuthorization.ownerId carries.record,
          congrArg OAuthAuthorization.serverId carries.record⟩
        unchanged := (carries.claimed claimed holds).2.2
        early := carries.early
        state
        asked := ?_
        endpoint := congrArg OAuthFlow.tokenEndpoint carries.flow
        admitted := ⟨parts, addresses, orThrow_eq_ok.mp split,
          ⟨require_eq_ok.mp scheme, require_eq_ok.mp form⟩, mapError_eq_ok.mp allowed⟩ }
      · show x.key = host.sha256 x.state
        rw [carries.key, state, asks.1]
      · show ("state", x.state) ∈ b.query ∧
          ("code_challenge", host.challenge x.flow.verifier) ∈ b.query ∧
          ("redirect_uri", x.flow.redirectUri) ∈ b.query ∧ ("resource", x.flow.resource) ∈ b.query
        rw [state, carries.flow]
        exact asks.2
    · exact .inl old

theorem keeps (sound : w.Sound host) (stepped : w.Stepped host w') : w'.Sound host := by
  cases stepped with
  | quiet tables begun sent calls => exact sound.quiet tables begun sent calls
  | begins begins => exact sound.begins begins
  | returns reads => exact sound.returns reads
  | denies found pending moved =>
      obtain ⟨b, hb, rfl, row, present, rfl, recorded⟩ := sound.owner found
      exact sound.moved (i := 0) hb present (by rw [pending]; trivial) moved rfl rfl (fun same => by cases same)
        (fun _ => recorded.unsent (.inl pending)) fun j y here =>
          .inl ⟨here, sound.unheld present pending here⟩
  | claims here phase moved => exact sound.claims here moved
  | @goes _ _ _ ctx here phase =>
      refine sound.goes here (by rw [phase]; rfl) rfl (fun _ => .inl) (fun _ listed => listed) (fun _ _ _ => ?_)
        (fun _ same => by cases same) sound.once fun _ _ _ _ => .inl
      obtain ⟨b, hb, carries⟩ := sound.calls _ _ here
      rw [carries.key]
      exact carries.unsent _ ctx (.inl phase)
  | sends here phase admitted => exact sound.sends here phase admitted
  | fails here holds moved =>
      have next : OAuthStatus.exchanging.Next .failedRequiresReauthorization := trivial
      exact sound.ends here holds next moved fun same => by cases same
  | succeeds here phase moved =>
      obtain ⟨b, hb, carries⟩ := sound.calls _ _ here
      have next : OAuthStatus.exchanging.Next .authorized := trivial
      exact sound.ends here (by rw [phase]; rfl) next moved fun _ => carries.key ▸ carries.sent _ phase

end OAuthWorld.Sound

end Steps

/-! ## Runs -/

theorem OAuthWorld.sound {w : OAuthWorld} (reachable : (oauthSystem host).Reachable w) : w.Sound host := by
  refine reachable.invariant (I := OAuthWorld.Sound host) ?_ fun w a w' _ sound step => ?_
  · rintro _ rfl
    constructor <;> simp [Returning]
  · exact sound.keeps (sound.stepped step.1 step.2)

/-- The token endpoint is asked at most once for an authorization that has begun, with what was made for it,
for the owner and the server that it was begun for; it is asked for every authorization that succeeds, and
for none that is still pending or that was denied. -/
theorem redeemed_once {w : OAuthWorld} (reachable : (oauthSystem host).Reachable w) :
    (w.sent.map TokenRequest.key).Nodup ∧ (∀ s ∈ w.sent, ∃ b ∈ w.begun, s.Redeems host b) ∧
      ∀ key record, w.tables.authorizations.get key = some record →
        (record.status = .authorized → ∃ s ∈ w.sent, s.key = key) ∧
        (record.status = .pending ∨ record.status = .denied → ∀ s ∈ w.sent, s.key ≠ key) := by
  have sound := OAuthWorld.sound reachable
  refine ⟨sound.once, sound.redeems, fun key record found => ?_⟩
  obtain ⟨b, hb, rfl, row, -, rfl, recorded⟩ := sound.owner found
  exact ⟨recorded.sent, recorded.unsent⟩

/-! ## Decisions -/

/-- A record has come to another one by its statuses. -/
def OAuthAuthorization.Advances : OAuthAuthorization → OAuthAuthorization → Prop :=
  Relation.ReflTransGen fun record record' =>
    ∃ status, record.status.Next status ∧ record' = record.to status

/-- The answer of the user or of the token endpoint is there. -/
def OAuthStatus.decided : OAuthStatus → Bool
  | .pending | .exchanging => false
  | .denied | .authorized | .failedRequiresReauthorization => true

theorem OAuthAuthorization.Advances.decided {record record' : OAuthAuthorization}
    (advances : record.Advances record') (decided : record.status.decided = true) : record' = record := by
  induction advances with
  | refl => rfl
  | tail _ step ih =>
      obtain ⟨status, next, rfl⟩ := step
      rw [ih] at next
      cases h : record.status <;> rw [h] at decided next
      · cases decided
      · exact next.elim
      · cases decided
      · exact next.elim
      · exact next.elim

theorem OAuthWorld.Sound.advances {w w' : OAuthWorld} (sound : w.Sound host) (stepped : w.Stepped host w')
    {key : Hash} {record : OAuthAuthorization} (found : w.tables.authorizations.get key = some record) :
    ∃ record', w'.tables.authorizations.get key = some record' ∧ record.Advances record' := by
  obtain ⟨b, hb, rfl, row, present, rfl, recorded⟩ := sound.owner found
  have moves {key : Hash} {old : OAuthAuthorization} {status : OAuthStatus} {tables : OAuthTables}
      (read : w.tables.authorizations.get key = some old) (next : old.status.Next status)
      (moved : w.tables.Moved key old status tables) :
      ∃ record', tables.authorizations.get b.key = some record' ∧ row.payload.Advances record' := by
    by_cases same : b.key = key
    · subst same
      cases found.symm.trans read
      refine ⟨_, ?_, .single ⟨status, next, rfl⟩⟩
      rw [Records.get, moved.rows, if_pos rfl]
      rfl
    · refine ⟨_, ?_, .refl⟩
      rw [Records.get, moved.rows, if_neg same, present]
      rfl
  have claimed {i : Nat} {x : CallbackCall} {claimed : OAuthAuthorization} {status : OAuthStatus}
      {tables : OAuthTables} (here : w.Returning i x) (holds : x.phase.claimed = some claimed)
      (next : OAuthStatus.exchanging.Next status) (moved : w.tables.Moved x.key claimed status tables) :
      ∃ record', tables.authorizations.get b.key = some record' ∧ row.payload.Advances record' := by
    obtain ⟨b', -, carries, held, -⟩ := sound.claimed here holds
    exact moves (carries.key ▸ held.get) (held.status ▸ next) moved
  cases stepped with
  | quiet tables => exact ⟨_, tables.authorizations ▸ found, .refl⟩
  | @begins new tables _ begins =>
      have other : b.key ≠ new.key := by
        intro same
        have positive := recorded.became.positive
        rw [← recorded.revision, ← Records.revision_of_get present, same, begins.free] at positive
        cases positive
      have kept : tables.authorizations.get b.key = some row.payload := by
        rw [Records.get, begins.rows, if_neg other, present]
        rfl
      exact ⟨_, kept, .refl⟩
  | returns => exact ⟨_, found, .refl⟩
  | denies read pending moved => exact moves read (by rw [pending]; trivial) moved
  | claims here phase moved =>
      obtain ⟨b', hb', carries, row', read, same, pending, -⟩ := sound.unchanged here moved.current
      rw [carries.key, carries.record, ← same] at moved
      exact moves (Records.get_eq_some.mpr ⟨row', read, rfl⟩) (by rw [pending]; trivial) moved
  | goes => exact ⟨_, found, .refl⟩
  | sends => exact ⟨_, found, .refl⟩
  | fails here holds moved =>
      have next : OAuthStatus.exchanging.Next .failedRequiresReauthorization := trivial
      exact claimed here holds next moved
  | succeeds here phase moved =>
      have next : OAuthStatus.exchanging.Next .authorized := trivial
      exact claimed here (by rw [phase]; rfl) next moved

/-- The record of an authorization stays, and comes only to next statuses: none that is decided changes. -/
theorem authorization_decided {w w' : OAuthWorld} (reachable : (oauthSystem host).Reachable w)
    (path : (oauthSystem host).Path w w') {key : Hash} {record : OAuthAuthorization}
    (found : w.tables.authorizations.get key = some record) :
    ∃ record', w'.tables.authorizations.get key = some record' ∧ record.Advances record' ∧
      (record.status.decided = true → record' = record) := by
  have run : ∃ record', w'.tables.authorizations.get key = some record' ∧ record.Advances record' := by
    refine path.stable (P := fun w => ∃ record', w.tables.authorizations.get key = some record' ∧
      record.Advances record') (fun s a s' before ⟨record', read, advances⟩ step => ?_) reachable
      ⟨_, found, .refl⟩
    have sound := OAuthWorld.sound before
    obtain ⟨record'', read', later⟩ := sound.advances (sound.stepped step.1 step.2) read
    exact ⟨record'', read', advances.trans later⟩
  obtain ⟨record', read, advances⟩ := run
  exact ⟨record', read, advances, advances.decided⟩

/-! ## Calling back -/

/-- What a browser comes back with when the user has agreed. -/
structure CallbackParams.Agrees (params : CallbackParams) (flow : OAuthFlow) (code : String) : Prop where
  state : params.state = some flow.state
  issuer : ∀ issuer ∈ params.iss, rstripSlash issuer = flow.issuer
  required : flow.issuerResponseRequired = true → ∃ issuer ∈ params.iss, issuer ≠ ""
  given : params.code = some code ∧ code ≠ ""
  error : params.error.filter (· ≠ "") = none

/-- What a callback of a pending authorization finds. -/
structure OAuthWorld.Open (w : OAuthWorld) (b : BegunAuthorization) : Prop where
  begun : b ∈ w.begun
  pending : ∃ record, w.tables.authorizations.get b.key = some record ∧ record.status = .pending
  early : w.now < b.record.expiresAt
  size : b.flow.state ≠ "" ∧ b.flow.state.length ≤ 512

section Calling

variable {w : OAuthWorld} {b : BegunAuthorization} {t : OAuthTables} {code : String}

theorem OAuthWorld.Sound.open_row (sound : w.Sound host) (opened : w.Open b) :
    w.tables.authorizations.get? b.key = some { revision := 1, payload := b.record } ∧
      w.tables.HasFlow b := by
  obtain ⟨record, found, pending⟩ := opened.pending
  obtain ⟨row, read, recorded⟩ := sound.recorded b opened.begun
  have same : row.payload = record := by
    rw [Records.get, read] at found
    exact Option.some.inj found
  rw [← same] at pending
  have first := recorded.became.pending (sound.start b opened.begun) pending
  refine ⟨?_, recorded.flow (by rw [pending]; decide)⟩
  rw [read, ← first]
  have revision := recorded.revision
  rw [first, (sound.start b opened.begun).2] at revision
  rw [← revision]

/-- The callback that a pending authorization leads to. -/
def BegunAuthorization.call (b : BegunAuthorization) (code : String) (now : Time) : CallbackCall where
  state := b.flow.state
  code := code
  key := b.key
  record := b.record
  flow := b.flow
  since := now
  phase := .profile

theorem OAuthWorld.Sound.calls_back (sound : w.Sound host) (opened : w.Open b) {params : CallbackParams}
    (agrees : params.Agrees b.flow code) {m : OAuthMoment} (readable : m.vault .flowGet = none) :
    host.callback params m w.now w.tables = .ok (b.call code w.now) w.tables := by
  obtain ⟨row, identity, named, flow⟩ := sound.open_row opened
  have key := (sound.asks b opened.begun).1
  have read : w.tables.authorizations.get (host.sha256 b.flow.state) = some b.record := by
    rw [Records.get, ← key, row]
    rfl
  have returns : wp (host.callback params m w.now) (fun x t => x = b.call code w.now ∧ t = w.tables)
      (fun _ _ => False) w.tables := by
    rw [OAuthHost.callback, agrees.state]
    refine wp_raising_bind (fun _ refused => by cases refused) fun state same => ?_
    cases same
    refine wp_ensure_bind (fun refused => refused opened.size) fun _ => ?_
    rw [wp_bind, wp_get, read]
    refine wp_raising_bind (fun _ refused => by cases refused) fun record same => ?_
    cases same
    have early := opened.early
    refine wp_ensure_bind (fun refused => refused ⟨(sound.start b opened.begun).1, early⟩) fun _ => ?_
    rw [wp_bind, readFlow, named]
    refine wp_raising_bind (fun _ refused => by cases refused) fun reference same => ?_
    cases same
    rw [wp_bind, vaultGet]
    refine wp_ensure_bind (fun refused => refused rfl) fun _ => ?_
    rw [readable]
    refine wp_raise_bind (fun _ refused => by cases refused) fun _ => ?_
    rw [wp_bind, wp_get, flow]
    refine wp_raising (fun _ refused => by cases refused) fun value same => ?_
    cases same
    refine wp_ensure_bind (fun refused => refused rfl) fun _ => ?_
    refine wp_ensure_bind (fun refused => refused ⟨agrees.issuer, agrees.required⟩) fun _ => ?_
    rw [agrees.error, agrees.given.1, Option.filter_some, if_pos (decide_eq_true agrees.given.2)]
    exact ⟨by rw [BegunAuthorization.call, key], rfl⟩
  obtain ⟨x, t, ran, rfl, rfl⟩ := returns.returned
  exact ran

theorem CallbackCall.claims {x : CallbackCall} {profile : OAuthProfile}
    (current : t.authorizations.revision x.key = x.record.revision)
    (same : profile.configRevision = x.record.configRevision) :
    ∃ t', x.claim (some profile) t = .ok { x with
      serverRevision := profile.configRevision, phase := .access (x.record.to .exchanging) } t' := by
  have returns : wp (x.claim (some profile)) (fun y _ => y = { x with
      serverRevision := profile.configRevision, phase := .access (x.record.to .exchanging) })
      (fun _ _ => False) t := by
    rw [CallbackCall.claim]
    refine wp_raising_bind (fun _ refused => by cases refused) fun found named => ?_
    cases named
    refine wp_ensure_bind (fun refused => refused same) fun _ => ?_
    rw [wp_bind, advanceAuthorization, wp_bind, wp_get]
    refine wp_raising_bind (fun _ refused => ?_) fun rows _ => rfl
    rw [Records.compareAndSet, Option.getD_some, require_pos _ current] at refused
    cases refused
  obtain ⟨y, t', ran, rfl⟩ := returns.returned
  exact ⟨t', ran⟩

end Calling

section Redeeming

variable {w : OAuthWorld} {i : Nat} {x : CallbackCall} {reply : Except OAuthFault HttpReply} {m : OAuthMoment}
  {draws : OAuthDraws}

theorem OAuthWorld.next_proceed (here : w.Returning i x) :
    w.next host (.proceed i reply m draws) = some (w.goOn host i x reply m draws) := by
  unfold OAuthWorld.next
  dsimp only
  rw [show w.calls i = some (.returning x) from here]

theorem OAuthWorld.returning_here {call : CallbackCall} {tables : OAuthTables} :
    (w.set i (some (.returning call)) tables).Returning i call :=
  returning_set.mpr (by rw [if_pos rfl])

theorem OAuthWorld.proceed_profile {y : CallbackCall} {tables : OAuthTables} (here : w.Returning i x)
    (phase : x.phase = .profile)
    (claims : x.claim (w.profiles x.record.serverId) w.tables = .ok y tables) :
    w.next host (.proceed i reply m draws) = some (w.set i (some (.returning y)) tables) := by
  rw [OAuthWorld.next_proceed here, OAuthWorld.goOn, phase]
  dsimp only
  rw [claims]

theorem OAuthWorld.proceed_access {claimed : OAuthAuthorization} {ctx : AccessContext}
    (here : w.Returning i x) (phase : x.phase = .access claimed) (access : m.access = .ok ctx) :
    w.next host (.proceed i reply m draws) =
      some (w.set i (some (.returning { x with phase := .permit claimed ctx })) w.tables) := by
  rw [OAuthWorld.next_proceed here, OAuthWorld.goOn, phase]
  dsimp only
  rw [access]

theorem OAuthWorld.proceed_permit {claimed : OAuthAuthorization} {ctx : AccessContext}
    {tables : OAuthTables} (here : w.Returning i x) (phase : x.phase = .permit claimed ctx)
    (permits : x.permit host m ctx w.tables = .ok () tables) :
    w.next host (.proceed i reply m draws) =
      some { w.set i (some (.returning { x with phase := .token claimed })) tables with
        sent := x.request m ctx :: w.sent } := by
  rw [OAuthWorld.next_proceed here, OAuthWorld.goOn, phase]
  dsimp only
  rw [permits]

/-- An authorization that is pending can be redeemed, whatever has been done with others, if the vault can be
read, the server is as it was, and its token endpoint passes what is asked of every URL before a request: HTTPS
or a loopback host, and the policy. -/
theorem pending_redeemable (reachable : (oauthSystem host).Reachable w) {b : BegunAuthorization}
    (opened : w.Open b) (free : w.calls i = none) {params : CallbackParams} {code : String}
    (agrees : params.Agrees b.flow code) (readable : m.vault .flowGet = none) {profile : OAuthProfile}
    (server : w.profiles b.record.serverId = some profile)
    (same : profile.configRevision = b.record.configRevision) {ctx : AccessContext}
    (access : m.access = .ok ctx) (admitted : host.permitUrl m ctx b.flow.tokenEndpoint = .ok ()) :
    ∃ w' s, System.runs (OAuthWorld.next host) w [.callback i params m, .proceed i reply m draws,
      .proceed i reply m draws, .proceed i reply m draws] = some w' ∧ w'.sent = s :: w.sent ∧
      s.key = b.key ∧ s.code = code ∧ s.verifier = b.flow.verifier := by
  have sound := OAuthWorld.sound reachable
  have current : w.tables.authorizations.revision b.key = b.record.revision := by
    rw [Records.revision_of_get (sound.open_row opened).1, (sound.start b opened.begun).2]
  obtain ⟨tables, claims⟩ := CallbackCall.claims (x := b.call code w.now) (t := w.tables) current same
  let read : CallbackCall := b.call code w.now
  let claimed : OAuthAuthorization := b.record.to .exchanging
  let asks (phase : CallbackPhase) : CallbackCall :=
    { read with serverRevision := profile.configRevision, phase }
  let w₁ := w.set i (some (.returning read)) w.tables
  let w₂ := w₁.set i (some (.returning (asks (.access claimed)))) tables
  let w₃ := w₂.set i (some (.returning (asks (.permit claimed ctx)))) tables
  have first : w.next host (.callback i params m) = some w₁ := by
    unfold OAuthWorld.next
    dsimp only
    rw [free, sound.calls_back opened agrees readable]
  have second : w₁.next host (.proceed i reply m draws) = some w₂ := by
    refine OAuthWorld.proceed_profile OAuthWorld.returning_here rfl ?_
    rw [show w₁.profiles read.record.serverId = some profile from server]
    exact claims
  have third : w₂.next host (.proceed i reply m draws) = some w₃ :=
    OAuthWorld.proceed_access OAuthWorld.returning_here rfl access
  have permits : (asks (.permit claimed ctx)).permit host m ctx tables = .ok () tables := by
    rw [CallbackCall.permit,
      show host.permitUrl m ctx (asks (.permit claimed ctx)).flow.tokenEndpoint = _ from admitted]
    rfl
  have fourth : w₃.next host (.proceed i reply m draws) = some
      { w₃.set i (some (.returning (asks (.token claimed)))) tables with
        sent := (asks (.permit claimed ctx)).request m ctx :: w.sent } :=
    OAuthWorld.proceed_permit OAuthWorld.returning_here rfl permits
  refine ⟨{ w₃.set i (some (.returning (asks (.token claimed)))) tables with
    sent := (asks (.permit claimed ctx)).request m ctx :: w.sent }, (asks (.permit claimed ctx)).request m ctx,
    ?_, rfl, rfl, rfl, rfl⟩
  rw [System.runs, first, Option.bind_some, System.runs, second, Option.bind_some, System.runs, third,
    Option.bind_some, System.runs, fourth]
  rfl

end Redeeming

/-! ## An authorization -/

namespace Sample

def addresses : NetworkMoment where
  layers := { workspace := fun _ _ => none, named := fun _ => none, digest := fun _ _ _ => 0 }
  snapshot := {}
  grants _ := none
  getaddrinfo _ _ := some ["address"]

def oauthHost : OAuthHost where
  lib := {
    urlsplit := fun url => some {
      scheme := "https", hostname := url, port := some none, username := "", password := ""
      path := "", query := "", fragment := "" }
    urljoin := fun _ _ => none
    ipAddress := fun _ => some { isGlobal := true, isLoopback := false, fake := false } }
  origin := id
  urlencode _ := ""
  sha256 := id
  challenge := id
  scope _ server := server
  readResource _ := none
  readServer _ := some {
    issuer := some "server", codeChallengeMethodsSupported := ["S256"], authorizationEndpoint := some "page"
    tokenEndpoint := some "token", registrationEndpoint := some "clients", issuerParameterSupported := false }
  readClient _ := some { clientId := some "client" }
  readToken _ := some "token"
  callbackUrl := "callback"

def askedBy : AccessContext := .diagnostic { ownerId := 1, workspaceId := none } "diagnostic"

def oauthAsked : OAuthMoment where
  network := addresses
  access := .ok askedBy

def drawn : OAuthDraws where
  authorizationId := "authorization"
  state := "state"
  verifier := "verifier"
  flowIdentity := "flow"
  credentialIdentity := "credential"

/-- What a piece draws that does not use it. -/
def spare : OAuthDraws := { drawn with authorizationId := "spare" }

def oauthAnswer (status : Nat) : Except OAuthFault HttpReply := .ok { status, size := 0, body := "" }

/-- An owner authorizes a server that declares no authorization server, and its client is registered. -/
def authorizing : List OAuthAction :=
  [.configure "server" (some { transport := .streamableHttp, endpoint := "server", configRevision := 1 }),
    .authorize 0 1 "server" oauthAsked, .proceed 0 (oauthAnswer 404) oauthAsked drawn,
    .proceed 0 (oauthAnswer 200) oauthAsked drawn, .proceed 0 (oauthAnswer 201) oauthAsked drawn]

/-- The browser comes back twice, and both callbacks go on. -/
def redeeming : List OAuthAction :=
  [.callback 1 { state := some "state", code := some "code" } oauthAsked,
    .callback 2 { state := some "state", code := some "code" } oauthAsked,
    .proceed 2 (oauthAnswer 200) oauthAsked spare, .proceed 1 (oauthAnswer 200) oauthAsked spare,
    .proceed 2 (oauthAnswer 200) oauthAsked spare, .proceed 2 (oauthAnswer 200) oauthAsked spare]

def oauthRun (actions : List OAuthAction) : Option OAuthWorld :=
  System.runsIf (OAuthWorld.next oauthHost) OAuthWorld.Draws {} actions

theorem oauthRun_reachable {actions : List OAuthAction} {w : OAuthWorld} (ran : oauthRun actions = some w) :
    (oauthSystem oauthHost).Reachable w :=
  System.Reachable.runsIf (.init rfl) ran

theorem redeemed : (oauthRun (authorizing ++ redeeming)).any
    (fun w => w.sent.map (fun s => (s.key, s.verifier)) = [("state", "verifier")]) = true := by
  decide

/-- The token endpoint does not answer, and the other callback goes on. -/
theorem failed : (oauthRun (authorizing ++ redeeming ++ [.proceed 2 (.error .outside) oauthAsked spare])).any
    (fun w => (w.next oauthHost (.callback 3 { state := some "state", code := some "again" } oauthAsked)).isSome ∧
      (w.tables.authorizations.get "state").map OAuthAuthorization.status =
        some .failedRequiresReauthorization) = true := by
  decide

theorem pending : (oauthRun authorizing).any (fun w => w.begun.any fun b =>
    b.key = "state" ∧ b.flow.state = "state" ∧ b.flow.issuerResponseRequired = false ∧
      b.record.serverId = "server" ∧ w.now < b.record.expiresAt ∧ b.record.configRevision = 1 ∧
      (w.tables.authorizations.get b.key).any (fun record => record.status = .pending) ∧
      (w.profiles "server").any (fun profile => profile.configRevision = 1) ∧ (w.calls 1).isNone ∧
      (oauthHost.permitUrl oauthAsked askedBy b.flow.tokenEndpoint).toOption = some ()) = true := by
  decide

end Sample

theorem redeemed_once_twice : ∃ w s b, Sample.oauthRun (Sample.authorizing ++ Sample.redeeming) = some w ∧
    w.sent = [s] ∧ b ∈ w.begun ∧ s.Redeems Sample.oauthHost b := by
  obtain ⟨w, ran, h⟩ := (Option.any_eq_true ..).mp Sample.redeemed
  obtain ⟨s, single, -⟩ := List.map_eq_singleton_iff.mp (of_decide_eq_true h)
  obtain ⟨b, hb, redeems⟩ := (redeemed_once (Sample.oauthRun_reachable ran)).2.1 s
    (single ▸ List.mem_singleton_self s)
  exact ⟨w, s, b, ran, single, hb, redeems⟩

theorem authorization_decided_failed : ∃ (w w' : OAuthWorld) (record : OAuthAuthorization),
    w.next Sample.oauthHost (.callback 3 { state := some "state", code := some "again" }
      Sample.oauthAsked) = some w' ∧
      record.status = .failedRequiresReauthorization ∧
        w'.tables.authorizations.get "state" = some record := by
  obtain ⟨w, ran, h⟩ := (Option.any_eq_true ..).mp Sample.failed
  obtain ⟨some', status⟩ := of_decide_eq_true h
  obtain ⟨w', next⟩ := Option.isSome_iff_exists.mp some'
  obtain ⟨record, found, status⟩ := Option.map_eq_some_iff.mp status
  have step : (oauthSystem Sample.oauthHost).step w (.callback 3 _ _) w' := ⟨trivial, next⟩
  have path := System.Path.refl.tail step
  obtain ⟨record', found', -, same⟩ := authorization_decided (Sample.oauthRun_reachable ran) path found
  refine ⟨w, w', record, next, status, ?_⟩
  rw [found', same (by rw [status]; rfl)]

theorem pending_redeemable_begun : ∃ (w w' : OAuthWorld) (s : TokenRequest),
    Sample.oauthRun Sample.authorizing = some w ∧ w'.sent = s :: w.sent ∧ s.code = "code" := by
  obtain ⟨w, ran, h⟩ := (Option.any_eq_true ..).mp Sample.pending
  obtain ⟨b, hb, h⟩ := List.any_eq_true.mp h
  obtain ⟨-, state, optional, server, early, revision, pending, profile, free, admitted⟩ :=
    of_decide_eq_true h
  obtain ⟨record, found, status⟩ := (Option.any_eq_true ..).mp pending
  obtain ⟨profile, listed, same⟩ := (Option.any_eq_true ..).mp profile
  have opened : w.Open b :=
    ⟨hb, ⟨record, found, of_decide_eq_true status⟩, early, by rw [state]; decide⟩
  have agrees : ({ state := some "state", code := some "code" } : CallbackParams).Agrees b.flow "code" := {
    state := by rw [state]
    issuer := fun _ listed => nomatch listed
    required := fun required => absurd (optional.symm.trans required) (by decide)
    given := ⟨rfl, by decide⟩
    error := rfl }
  obtain ⟨w', s, -, sent, -, code, -⟩ :=
    @pending_redeemable Sample.oauthHost w 1 (.error .outside) Sample.oauthAsked Sample.drawn
      (Sample.oauthRun_reachable ran) b opened (Option.isNone_iff_eq_none.mp free) _ _ agrees rfl profile
      (server ▸ listed) ((of_decide_eq_true same).trans revision.symm) _ rfl (toOption_eq_some.mp admitted)
  exact ⟨w, w', s, ran, sent, code⟩

end MiHarness

import MiHarness.Skills.Refreshing

/-!
# Activations keep their version

A refresh or a configuration touches neither an activation nor a stored snapshot (`Quiet`).  What the other
calls do to activations is `Evolves`: an activation keeps its digest and stays where it is, and one that
has ended stays ended.  Over a run that keeps one live activation for a run, an agent and a skill, and a
snapshot for each (`SkillWorld.Sound`).

A read returns only from the snapshot of its activation, which is as it was when the skill was activated,
and only while the activation lasts and the skill may be used (`skill_pinning`).
-/

namespace MiHarness

open Library Library.Utf8

variable {host : SkillHost} {w w' w'' : SkillWorld} {ref : ActivationRef} {a a' : SkillActivation}

theorem getSkill_wp (skillId : SkillId) (w : SkillWorld) : wp (getSkill skillId)
    (fun record t => t = w ∧ w.skills.get skillId = some record) (fun _ t => t = w) w := by
  rw [getSkill, wp_bind, wp_get]
  cases h : w.skills.get skillId with
  | none => exact rfl
  | some record => exact ⟨rfl, rfl⟩

/-! ## What a refresh leaves alone -/

/-- The activations are the same, and snapshots are only added. -/
structure SkillHost.Quiet (host : SkillHost) (w w' : SkillWorld) : Prop where
  activations : w'.activations = w.activations
  snapshots : host.Grows w.snapshots w'.snapshots

theorem SkillHost.Quiet.refl (w : SkillWorld) : host.Quiet w w := ⟨rfl, .refl _⟩

theorem SkillHost.refresh_quiet (sources : List (String × SkillSource))
    (sourceIds : Option (List String)) (fresh : Nat → Nat → SkillId) :
    Moves host.Quiet (host.refresh sources sourceIds fresh) := fun w =>
  (host.refresh_wp sources sourceIds fresh w).mono
    (fun _ _ rewrites => ⟨rewrites.1.activations, rewrites.1.snapshots⟩)
    fun _ _ rewrites => ⟨rewrites.activations, rewrites.snapshots⟩

theorem configure_quiet (skillId : SkillId) (expectedRevision : Nat) (enabled : Option Bool)
    (trustState : Option TrustState) :
    Moves host.Quiet (configure skillId expectedRevision enabled trustState) := by
  intro w
  rw [configure, wp_bind]
  refine (getSkill_wp skillId w).mono ?_ ?_
  · rintro current t ⟨rfl, -⟩
    refine wp_ensure_bind (fun _ => .refl t) fun _ => ?_
    refine wp_ensure_bind (fun _ => .refl t) fun _ => ?_
    rw [wp_bind, wp_get]
    split
    · rw [wp_bind, wp_modify]
      exact ⟨rfl, .refl _⟩
    · exact .refl t
  · rintro e t rfl
    exact .refl t

/-! ## What a call does to the activations -/

/-- The activation has gone on: it is still for the same version, and has not begun again. -/
structure SkillActivation.Continues (a a' : SkillActivation) : Prop where
  contentHash : a'.contentHash = a.contentHash
  runId : a'.runId = a.runId
  agentId : a'.agentId = a.agentId
  skillId : a'.skillId = a.skillId
  ended : a.deactivatedAt.isSome = true → a'.deactivatedAt.isSome = true

theorem SkillActivation.Continues.refl (a : SkillActivation) : a.Continues a :=
  ⟨rfl, rfl, rfl, rfl, id⟩

theorem SkillActivation.Continues.trans {a'' : SkillActivation} (first : a.Continues a')
    (second : a'.Continues a'') : a.Continues a'' where
  contentHash := second.contentHash.trans first.contentHash
  runId := second.runId.trans first.runId
  agentId := second.agentId.trans first.agentId
  skillId := second.skillId.trans first.skillId
  ended h := second.ended (first.ended h)

theorem SkillActivation.Continues.live (continues : a.Continues a') (live : a'.deactivatedAt = none) :
    a.deactivatedAt = none := by
  cases h : a.deactivatedAt with
  | none => rfl
  | some t =>
      have ended := continues.ended (by rw [h]; rfl)
      rw [live] at ended
      cases ended

/-- At most one activation for a run, an agent and a skill has not ended. -/
def SkillWorld.OneLive (w : SkillWorld) : Prop :=
  ∀ ref ref' a a', w.activations.get? ref = some a → w.activations.get? ref' = some a' →
    a.deactivatedAt = none → a'.deactivatedAt = none → a'.runId = a.runId → a'.agentId = a.agentId →
    a'.skillId = a.skillId → ref' = ref

/-- Every activation has its snapshot. -/
structure SkillHost.Pins (host : SkillHost) (w : SkillWorld) : Prop where
  snapshots : host.Sound w.snapshots
  stored : ∀ ref a, w.activations.get? ref = some a →
    ∃ snapshot, w.snapshots.get? a.contentHash = some snapshot
  live : w.OneLive

/-- Every activation and every snapshot stays. -/
structure SkillHost.Evolves (host : SkillHost) (w w' : SkillWorld) : Prop where
  snapshots : host.Grows w.snapshots w'.snapshots
  kept : ∀ ref a, w.activations.get? ref = some a →
    ∃ a', w'.activations.get? ref = some a' ∧ a.Continues a'
  pins : host.Pins w → host.Pins w'

theorem SkillHost.Evolves.refl (w : SkillWorld) : host.Evolves w w :=
  ⟨.refl _, fun _ a h => ⟨a, h, .refl a⟩, id⟩

theorem SkillHost.Evolves.trans (first : host.Evolves w w') (second : host.Evolves w' w'') :
    host.Evolves w w'' := by
  refine ⟨first.snapshots.trans second.snapshots, fun ref a h => ?_, fun h => second.pins (first.pins h)⟩
  obtain ⟨a', h', continues⟩ := first.kept ref a h
  obtain ⟨a'', h'', continues'⟩ := second.kept ref a' h'
  exact ⟨a'', h'', continues.trans continues'⟩

theorem SkillHost.Quiet.evolves (quiet : host.Quiet w w') : host.Evolves w w' := by
  obtain ⟨activations, snapshots⟩ := quiet
  refine ⟨snapshots, fun ref a h => ⟨a, by rw [activations]; exact h, .refl a⟩, fun pins => ?_⟩
  refine ⟨snapshots.sound pins.snapshots, fun ref a h => ?_, ?_⟩
  · rw [activations] at h
    obtain ⟨snapshot, stored⟩ := pins.stored ref a h
    exact ⟨snapshot, snapshots.kept _ _ stored⟩
  · rw [SkillWorld.OneLive, activations]
    exact pins.live

/-- An activation is replaced by one that continues it. -/
theorem SkillHost.evolves_replace (h : w.activations.get? ref = some a) (continues : a.Continues a') :
    host.Evolves w { w with activations := w.activations.put ref a' } := by
  have row : ∀ other b, (w.activations.put ref a').get? other = some b →
      ∃ b', w.activations.get? other = some b' ∧ b'.Continues b := by
    intro other b found
    rw [Table.get?_put] at found
    split at found
    case isTrue same =>
      cases found
      exact ⟨a, same ▸ h, continues⟩
    case isFalse => exact ⟨b, found, .refl b⟩
  refine ⟨.refl _, fun other b found => ?_, fun pins => ⟨pins.snapshots, fun other b found => ?_, ?_⟩⟩
  · by_cases same : other = ref
    · rw [same, h] at found
      cases found
      exact ⟨a', (Table.get?_put ..).trans (if_pos same), continues⟩
    · exact ⟨b, (Table.get?_put ..).trans ((if_neg same).trans found), .refl b⟩
  · obtain ⟨b', before, continued⟩ := row other b found
    obtain ⟨snapshot, stored⟩ := pins.stored other b' before
    exact ⟨snapshot, by rw [continued.contentHash]; exact stored⟩
  · intro first second b c hb hc liveB liveC run agent skill
    obtain ⟨b', beforeB, continuedB⟩ := row first b hb
    obtain ⟨c', beforeC, continuedC⟩ := row second c hc
    refine pins.live first second b' c' beforeB beforeC (continuedB.live liveB)
      (continuedC.live liveC) ?_ ?_ ?_
    · rw [← continuedC.runId, ← continuedB.runId, run]
    · rw [← continuedC.agentId, ← continuedB.agentId, agent]
    · rw [← continuedC.skillId, ← continuedB.skillId, skill]

/-- A skill is activated that no activation pins. -/
theorem SkillHost.evolves_enter {snapshot : SkillSnapshot} (fresh : w.activations.get? ref = none)
    (unpinned : ∀ other b, w.activations.get? other = some b → b.deactivatedAt = none →
      b.runId = a.runId → b.agentId = a.agentId → b.skillId = a.skillId → False)
    (stored : w.snapshots.get? a.contentHash = some snapshot) :
    host.Evolves w { w with activations := w.activations.put ref a } := by
  have row : ∀ other b, (w.activations.put ref a).get? other = some b →
      (other = ref ∧ b = a) ∨ other ≠ ref ∧ w.activations.get? other = some b := by
    intro other b found
    rw [Table.get?_put] at found
    split at found
    case isTrue same =>
      cases found
      exact .inl ⟨same, rfl⟩
    case isFalse different => exact .inr ⟨different, found⟩
  refine ⟨.refl _, fun other b found => ?_, fun pins => ⟨pins.snapshots, fun other b found => ?_, ?_⟩⟩
  · have different : other ≠ ref := by
      rintro rfl
      cases fresh.symm.trans found
    exact ⟨b, (Table.get?_put ..).trans ((if_neg different).trans found), .refl b⟩
  · rcases row other b found with ⟨-, rfl⟩ | ⟨-, found⟩
    · exact ⟨snapshot, stored⟩
    · exact pins.stored other b found
  · intro first second b c hb hc liveB liveC run agent skill
    rcases row first b hb with ⟨rfl, rfl⟩ | ⟨-, beforeB⟩
    · rcases row second c hc with ⟨same, -⟩ | ⟨-, beforeC⟩
      · exact same
      · exact (unpinned second c beforeC liveC run agent skill).elim
    · rcases row second c hc with ⟨-, rfl⟩ | ⟨-, beforeC⟩
      · exact (unpinned first b beforeB liveB run.symm agent.symm skill.symm).elim
      · exact pins.live first second b c beforeB beforeC liveB liveC run agent skill

/-! ## Calls on activations -/

theorem SkillWorld.pinned_eq_some {runId : RunId} {agentId : String} {skillId : SkillId}
    (h : w.pinned runId agentId skillId = some (ref, a)) :
    w.activations.get? ref = some a ∧ a.pins runId agentId skillId = true := by
  have found := List.mem_of_find?_eq_some h
  exact ⟨Table.mem_rows.mp ((List.mem_insertionSort _).mp found),
    List.find?_some (p := fun row : ActivationRef × SkillActivation => row.2.pins runId agentId skillId) h⟩

theorem SkillWorld.pinned_eq_none {runId : RunId} {agentId : String} {skillId : SkillId}
    (h : w.pinned runId agentId skillId = none) (found : w.activations.get? ref = some a)
    (live : a.deactivatedAt = none) (run : a.runId = runId) (agent : a.agentId = agentId)
    (skill : a.skillId = skillId) : False := by
  have absent := List.find?_eq_none.mp h (ref, a)
    ((List.mem_insertionSort _).mpr (Table.mem_rows.mpr found))
  apply absent
  simp [SkillActivation.pins, live, run, agent, skill]

theorem checkOwner_wp (a : SkillActivation) (ctx : SkillContext) (w : SkillWorld) :
    wp (checkOwner a ctx) (fun _ t => t = w) (fun _ t => t = w) w :=
  wp_ensure (fun _ => rfl) fun _ => rfl

/-- A file of the snapshot that is under the digest. -/
def SkillWorld.Holds (w : SkillWorld) (digest : Hash) (name : String) (content : Bytes) : Prop :=
  ∃ snapshot, w.snapshots.get? digest = some snapshot ∧ snapshot.files.get? name = some content

theorem SkillHost.readSnapshot_wp (host : SkillHost) (digest : Hash) (name : String)
    (w : SkillWorld) : wp (onSnapshots (host.read digest name))
      (fun content t => t = w ∧ w.Holds digest name content) (fun _ t => t = w) w := by
  rw [onSnapshots, wp_zoom]
  refine (host.read_wp digest name w.snapshots).mono ?_ ?_
  · rintro content t ⟨rfl, held⟩
    exact ⟨rfl, held⟩
  · rintro e t rfl
    rfl

/-- The body of the skill in the snapshot that is under the digest. -/
def SkillHost.HoldsBody (host : SkillHost) (w : SkillWorld) (digest : Hash) (body : List Char) : Prop :=
  ∃ content text metadata, w.Holds digest "SKILL.md" content ∧ decodeStrict content = some text ∧
    host.parseSkill text = .ok (metadata, body, [])

theorem SkillHost.readBody_wp (host : SkillHost) (digest : Hash) (w : SkillWorld) :
    wp (host.readBody digest) (fun body t => t = w ∧ host.HoldsBody w digest body)
      (fun _ t => t = w) w := by
  rw [readBody, wp_bind]
  refine (host.readSnapshot_wp digest "SKILL.md" w).mono ?_ fun _ _ h => h
  rintro content t ⟨rfl, held⟩
  rw [wp_bind]
  refine (orRaise_wp _ _ t).mono ?_ fun _ _ h => h
  rintro text u ⟨rfl, decoded⟩
  split
  case h_1 => exact rfl
  case h_2 metadata body diagnostics parsed =>
    refine wp_ensure_bind (fun _ => rfl) fun clean => ⟨rfl, content, text, metadata, held, decoded, ?_⟩
    rw [parsed, clean]

/-- What is so when a skill has been activated. -/
structure SkillHost.Activated (host : SkillHost) (skillId : SkillId) (w w' : SkillWorld)
    (r : ActivatedSkill) : Prop where
  usable : ∃ record, w.skills.get skillId = some record ∧ record.enabled = true ∧
    record.trustState ≠ .blocked
  activation : w'.activations.get? r.activationRef = some r.activation
  live : r.activation.deactivatedAt = none
  contentHash : r.activation.contentHash = r.snapshotRef
  body : host.HoldsBody w r.snapshotRef r.body

theorem SkillHost.enterActivation_wp (host : SkillHost) {ctx : SkillContext} {r : ActivateRequest}
    {runId : RunId} {digest : Hash} {existing : Option (ActivationRef × SkillActivation)}
    {fresh : ActivationRef} {snapshot : SkillSnapshot} (now : Time)
    (unused : w.activations.get? fresh = none)
    (found : existing = w.pinned runId r.agentId r.skillId)
    (same : existing.all (·.2.contentHash = digest) = true)
    (stored : w.snapshots.get? digest = some snapshot) :
    wp (enterActivation ctx r runId digest existing fresh now)
      (fun entered t => host.Evolves w t ∧ t.snapshots = w.snapshots ∧
        t.activations.get? entered.1 = some entered.2 ∧ entered.2.deactivatedAt = none ∧
        entered.2.contentHash = digest)
      (fun _ t => t = w) w := by
  cases existing with
  | some entry =>
      obtain ⟨ref, activation⟩ := entry
      obtain ⟨row, pins⟩ := SkillWorld.pinned_eq_some found.symm
      rw [enterActivation, wp_bind]
      refine (checkOwner_wp activation ctx w).mono ?_ fun _ _ h => h
      rintro _ t rfl
      refine ⟨.refl t, rfl, row, ?_, by simpa using same⟩
      simp only [SkillActivation.pins, Bool.and_eq_true, Option.isNone_iff_eq_none] at pins
      exact pins.2
  | none =>
      rw [enterActivation, wp_bind, wp_modify]
      refine ⟨evolves_enter unused ?_ stored, rfl, (Table.get?_put ..).trans (if_pos rfl), rfl, rfl⟩
      exact fun other b held live run agent skill =>
        SkillWorld.pinned_eq_none found.symm held live run agent skill

theorem SkillHost.activate_wp (host : SkillHost) (authorize : SkillAuthorizer) (ctx : SkillContext)
    (r : ActivateRequest) {fresh : ActivationRef} (now : Time)
    (unused : w.activations.get? fresh = none) : wp (host.activate authorize ctx r fresh now)
      (fun activated t => host.Evolves w t ∧ host.Activated r.skillId w t activated)
      (fun _ t => host.Evolves w t) w := by
  have stays : ∀ (e : SkillError) t, t = w → host.Evolves w t := by
    rintro e t rfl
    exact .refl t
  rw [activate, wp_bind]
  refine (orRaise_wp ctx.runId _ w).mono ?_ stays
  rintro runId t ⟨rfl, -⟩
  refine wp_ensure_bind (fun _ => .refl t) fun _ => ?_
  rw [wp_bind]
  refine (getSkill_wp r.skillId t).mono ?_ stays
  rintro current u ⟨rfl, found⟩
  rw [wp_bind, wp_get]
  refine wp_ensure_bind (fun _ => .refl u) fun same => ?_
  rw [wp_bind, wp_get, wp_bind]
  refine (orRaise_wp _ _ u).mono ?_ stays
  rintro record v ⟨rfl, -⟩
  refine wp_ensure_bind (fun _ => .refl v) fun usable => ?_
  refine wp_raise_bind (fun _ _ => .refl v) fun _ => ?_
  refine wp_raise_bind (fun _ _ => .refl v) fun _ => ?_
  rw [wp_bind]
  refine (host.readBody_wp _ v).mono ?_ stays
  rintro body x ⟨rfl, held⟩
  obtain ⟨content, text, metadata, ⟨snapshot, stored, file⟩, decoded, parsed⟩ := held
  rw [wp_bind]
  refine (host.enterActivation_wp now unused rfl same stored).mono ?_ stays
  rintro entered y ⟨evolves, snapshots, row, live, hash⟩
  rw [wp_bind, onSnapshots, wp_zoom]
  refine (host.manifest_wp _ y.snapshots).mono ?_ ?_
  · rintro manifest z ⟨rfl, -⟩
    refine ⟨evolves, ⟨current, found, usable.1, usable.2.1⟩, row, live, hash, ?_⟩
    exact ⟨content, text, metadata, ⟨snapshot, stored, file⟩, decoded, parsed⟩
  · rintro e z rfl
    exact evolves

/-- What is so when a resource has been read. -/
structure SkillHost.Reads (w : SkillWorld) (ref : ActivationRef) (resourceRef : String)
    (r : ResourceContent) : Prop where
  activation : ∃ a, w.activations.get? ref = some a ∧ a.deactivatedAt = none ∧
    (∃ record, w.skills.get a.skillId = some record ∧ record.enabled = true ∧
      record.trustState ≠ .blocked) ∧
    w.Holds a.contentHash resourceRef r.content

theorem SkillHost.readResource_wp (host : SkillHost) (authorize : SkillAuthorizer)
    (ctx : SkillContext) (ref : ActivationRef) (resourceRef : String) (w : SkillWorld) :
    wp (host.readResource authorize ctx ref resourceRef)
      (fun r t => host.Evolves w t ∧ Reads w ref resourceRef r) (fun _ t => host.Evolves w t) w := by
  have stays : ∀ (e : SkillError) t, t = w → host.Evolves w t := by
    rintro e t rfl
    exact .refl t
  rw [readResource, wp_bind, wp_get, wp_bind]
  refine (orRaise_wp _ _ w).mono ?_ stays
  rintro a t ⟨rfl, row⟩
  rw [wp_bind]
  refine (checkOwner_wp a ctx t).mono ?_ stays
  rintro _ u rfl
  refine wp_ensure_bind (fun _ => .refl u) fun live => ?_
  rw [wp_bind]
  refine (getSkill_wp a.skillId u).mono ?_ stays
  rintro record v ⟨rfl, found⟩
  refine wp_ensure_bind (fun _ => .refl v) fun usable => ?_
  refine wp_raise_bind (fun _ _ => .refl v) fun _ => ?_
  rw [wp_bind]
  refine (host.readSnapshot_wp _ _ v).mono ?_ stays
  rintro content x ⟨rfl, held⟩
  have reads : ∀ r : ResourceContent, r.content = content → Reads x ref resourceRef r := by
    rintro r rfl
    exact ⟨a, row, live, ⟨record, found, usable⟩, held⟩
  split
  · rw [wp_bind, wp_modify]
    exact ⟨evolves_replace row ⟨rfl, rfl, rfl, rfl, id⟩, reads _ rfl⟩
  · exact ⟨.refl x, reads _ rfl⟩

theorem deactivate_wp (host : SkillHost) (ctx : SkillContext) (ref : ActivationRef) (reason : String)
    (now : Time) (w : SkillWorld) : wp (deactivate ctx ref reason now)
      (fun _ t => host.Evolves w t) (fun _ t => host.Evolves w t) w := by
  rw [deactivate, wp_bind, wp_get, wp_bind]
  refine (orRaise_wp _ _ w).mono ?_ ?_
  · rintro a t ⟨rfl, row⟩
    rw [wp_bind]
    refine (checkOwner_wp a ctx t).mono ?_ ?_
    · rintro _ u rfl
      rw [wp_bind, wp_modify]
      exact SkillHost.evolves_replace row ⟨rfl, rfl, rfl, rfl, fun _ => rfl⟩
    · rintro _ u rfl
      exact .refl u
  · rintro _ t rfl
    exact .refl t

/-! ## Every run -/

theorem afterCall_of_wp {α : Type} {x : SkillM α} {P : SkillWorld → Prop}
    (h : wp x (fun _ t => P t) (fun _ t => P t) w) : P (afterCall x w) := by
  unfold wp at h
  unfold afterCall
  split at h
  · rename_i same
    rw [same]
    exact h
  · rename_i same
    rw [same]
    exact h

theorem SkillHost.next_evolves {action : SkillAction} (h : host.next w action = some w') :
    host.Evolves w w' := by
  cases action with
  | refresh sources sourceIds fresh =>
      cases h
      exact (afterCall_of_wp (refresh_quiet sources sourceIds fresh w)).evolves
  | configure skillId expectedRevision enabled trustState =>
      cases h
      exact (afterCall_of_wp (configure_quiet skillId expectedRevision enabled trustState w)).evolves
  | activate authorize ctx r fresh now =>
      rw [next] at h
      split at h
      case isTrue unused =>
        cases h
        exact afterCall_of_wp
          ((host.activate_wp authorize ctx r now unused).mono (fun _ _ h => h.1) fun _ _ h => h)
      case isFalse => cases h
  | readResource authorize ctx ref resourceRef =>
      cases h
      exact afterCall_of_wp
        ((host.readResource_wp authorize ctx ref resourceRef w).mono (fun _ _ h => h.1) fun _ _ h => h)
  | deactivate ctx ref reason now =>
      cases h
      exact afterCall_of_wp (deactivate_wp host ctx ref reason now w)

theorem SkillHost.evolves_of_path (path : host.system.Path w w') : host.Evolves w w' := by
  induction path with
  | refl => exact .refl w
  | tail _ step ih => exact ih.trans (next_evolves step)

theorem SkillHost.pins_of_reachable (reachable : host.system.Reachable w) : host.Pins w := by
  refine System.Reachable.invariant (I := host.Pins) (fun w start => ?_) ?_ reachable
  · refine ⟨fun digest snapshot h => ?_, fun ref a h => ?_, fun ref ref' a a' h => ?_⟩
    · rw [start.snapshots] at h
      cases h
    · rw [start.activations] at h
      cases h
    · rw [start.activations] at h
      cases h
  · exact fun _ _ _ _ pins step => (next_evolves step).pins pins

/-- The activation has not ended, and its skill is neither disabled nor blocked. -/
def SkillWorld.Readable (w : SkillWorld) (ref : ActivationRef) : Prop :=
  ∃ a record, w.activations.get? ref = some a ∧ a.deactivatedAt = none ∧
    w.skills.get a.skillId = some record ∧ record.enabled = true ∧ record.trustState ≠ .blocked

/-- In every run there is at most one live activation for a run, an agent and a skill; an activation keeps
its digest; what is read through it, however much later, is the file of the snapshot that is under that
digest now, and nothing is read when the activation has ended or the skill is disabled or blocked.  A skill
is activated only when it is neither, with the body of the snapshot of its digest. -/
theorem skill_pinning (reachable : host.system.Reachable w) :
    w.OneLive ∧
    (∀ w', host.system.Path w w' → ∀ ref a, w.activations.get? ref = some a →
      (∃ a', w'.activations.get? ref = some a' ∧ a'.contentHash = a.contentHash) ∧
      ∃ snapshot, w.snapshots.get? a.contentHash = some snapshot ∧
        host.bundleHash snapshot.files = a.contentHash ∧
        ∀ authorize ctx resourceRef r w'',
          host.readResource authorize ctx ref resourceRef w' = .ok r w'' →
            snapshot.files.get? resourceRef = some r.content ∧ w'.Readable ref) ∧
    (∀ authorize ctx r fresh now activated w', w.activations.get? fresh = none →
      host.activate authorize ctx r fresh now w = .ok activated w' →
        host.Activated r.skillId w w' activated) := by
  have pins := SkillHost.pins_of_reachable reachable
  refine ⟨pins.live, fun w' path ref a found => ?_, ?_⟩
  · have evolves := SkillHost.evolves_of_path path
    obtain ⟨a', found', continues⟩ := evolves.kept ref a found
    obtain ⟨snapshot, stored⟩ := pins.stored ref a found
    refine ⟨⟨a', found', continues.contentHash⟩, snapshot, stored,
      (pins.snapshots _ snapshot stored).2, fun authorize ctx resourceRef r w'' reads => ?_⟩
    have read := host.readResource_wp authorize ctx ref resourceRef w'
    unfold wp at read
    rw [reads] at read
    obtain ⟨b, row, live, ⟨record, skill, usable⟩, snapshot', held, file⟩ := read.2.activation
    cases found'.symm.trans row
    rw [continues.contentHash] at held
    cases (evolves.snapshots.kept _ _ stored).symm.trans held
    exact ⟨file, a', record, row, live, skill, usable⟩
  · intro authorize ctx r fresh now activated w' unused activates
    have entered := host.activate_wp authorize ctx r now unused
    unfold wp at entered
    rw [activates] at entered
    exact entered.2

namespace Sample

/-- A skill with a front matter of two lines. -/
def skillText : List Char := "---\nname: a\ndescription: b\n---\nBody\n".toList

/-- A host whose digests tell the length of what they digest. -/
def skillHost : SkillHost where
  sha256 data := String.ofList (List.replicate 64 (if data.length % 2 = 0 then '0' else '1'))
  dumps manifest := manifest.flatMap fun entry => encode entry.2.toList
  yaml front :=
    if front = "name: a\ndescription: b".toList then
      .ok (some [("name", .string "a"), ("description", .string "b")])
    else .error (.yaml none)
  guessType _ := none

def skillSource : SkillSource where
  scope := .project
  trusted := true
  candidates := [⟨"a", "file:///a"⟩]
  interrupted := none
  bundle _ := .ok ⟨[("SKILL.md", encode skillText)], List.nodup_singleton _⟩
  refused _ := none

def noSkills : SkillWorld where
  skills := .empty
  versions := .empty
  activations := .empty
  snapshots := .empty

/-- The source is scanned, and the skill is activated for a run. -/
def activating : List SkillAction :=
  [.refresh [("s", skillSource)] none fun _ _ => 1,
    .activate (fun _ _ => none) ⟨1, 1, 1, some 10⟩ { skillId := 1 } 7 5]

theorem activating_runs : (System.runs skillHost.next noSkills activating).any (fun w =>
    (w.activations.get? 7).isSome) = true := by decide

end Sample

theorem skill_pinning_activated : ∃ w, Sample.skillHost.system.Reachable w ∧
    (w.activations.get? 7).isSome = true ∧ w.OneLive := by
  have runs := Sample.activating_runs
  simp only [Option.any_eq_true] at runs
  obtain ⟨w, run, activated⟩ := runs
  have reachable : Sample.skillHost.system.Reachable w :=
    System.Reachable.runs (.init ⟨rfl, rfl⟩) run
  exact ⟨w, reachable, activated, (skill_pinning reachable).1⟩

end MiHarness

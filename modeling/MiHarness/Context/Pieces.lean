import MiHarness.Context.Composition

/-!
# What the pieces of a composition do

`ContextCall.Does` says what a step of a composition does to the tables, with one constructor for each piece,
and `ContextTables.Raises` what a step leaves that raises.  A pointer is replaced by later ones only, so that
what a composition has read (`Composition.Reads`) is either still there or has an earlier revision.
-/

namespace MiHarness

open Library

variable {host : ContextHost} {t t' u : ContextTables} {ctx : ComposeContext}

/-! ## What the pieces do to the tables -/

/-- The summary that a thread names. -/
def ContextTables.active (t : ContextTables) (thread : ThreadKey) : Option SummaryId :=
  (t.pointers.get thread).bind ContextPointer.summaryRef

def ContextTables.activeSummary (t : ContextTables) (thread : ThreadKey) : Option CompactionSummary :=
  (t.active thread).bind t.summaries.get

/-- A pointer that stays, or is replaced by a later one. -/
def ContextPointer.Onwards (p p' : ContextPointer) : Prop :=
  p' = p ∨ p.revision < p'.revision ∧ p.inputRevision ≤ p'.inputRevision

theorem ContextPointer.Onwards.trans {p p' p'' : ContextPointer} (first : p.Onwards p')
    (second : p'.Onwards p'') : p.Onwards p'' := by
  rcases first with rfl | ⟨revision, input⟩
  · exact second
  · rcases second with rfl | ⟨revision', input'⟩
    · exact .inr ⟨revision, input⟩
    · exact .inr ⟨revision.trans revision', input.trans input'⟩

theorem ContextPointer.Onwards.input {p p' : ContextPointer} (onwards : p.Onwards p') :
    p.inputRevision ≤ p'.inputRevision := by
  rcases onwards with rfl | ⟨-, input⟩
  · exact Nat.le_refl _
  · exact input

/-- A pointer with the same revision is the same. -/
theorem ContextPointer.Onwards.eq {p p' : ContextPointer} (onwards : p.Onwards p')
    (same : p'.revision = p.revision) : p' = p :=
  onwards.resolve_right fun h => absurd same (Nat.ne_of_gt h.1)

/-- Pointers and pins stay, or are replaced by later ones. -/
structure ContextTables.Onwards (t t' : ContextTables) : Prop where
  pointers : ∀ thread p, t.pointers.get thread = some p →
    ∃ p', t'.pointers.get thread = some p' ∧ p.Onwards p'
  pins : ∀ branch, t'.pinsOf branch = t.pinsOf branch ∨
    (t.pinsOf branch).revision < (t'.pinsOf branch).revision

/-- The summaries that are stored stay as they are. -/
def ContextTables.KeepsSummaries (t t' : ContextTables) : Prop :=
  ∀ id s, t.summaries.get id = some s → t'.summaries.get id = some s

/-- What a piece does that activates nothing and stores no summary. -/
structure ContextTables.Leads (t t' : ContextTables) : Prop where
  pins : t'.pins = t.pins
  summaries : t'.summaries = t.summaries
  revised : t'.pointers.Revised
  active : ∀ thread, t'.active thread = t.active thread
  onwards : ∀ thread p, t.pointers.get thread = some p →
    ∃ p', t'.pointers.get thread = some p' ∧ p.Onwards p'

/-- Pointers, pins and summaries are as they were. -/
structure ContextTables.Quiet (t t' : ContextTables) : Prop where
  pointers : t'.pointers = t.pointers
  pins : t'.pins = t.pins
  summaries : t'.summaries = t.summaries

namespace ContextTables

theorem Quiet.refl (t : ContextTables) : t.Quiet t := ⟨rfl, rfl, rfl⟩

theorem Quiet.trans (first : t.Quiet t') (second : t'.Quiet u) : t.Quiet u :=
  ⟨second.pointers.trans first.pointers, second.pins.trans first.pins,
    second.summaries.trans first.summaries⟩

theorem Quiet.bind {α β : Type} {x : ContextM α} {f : α → ContextM β} (first : Moves Quiet x)
    (later : ∀ a, Moves Quiet (f a)) : Moves Quiet (x >>= f) :=
  Moves.bind (R := Quiet) (fun first second => first.trans second) first later

theorem Quiet.leads (quiet : t.Quiet t') (revised : t.pointers.Revised) : t.Leads t' where
  pins := quiet.pins
  summaries := quiet.summaries
  revised := quiet.pointers ▸ revised
  active thread := by rw [active, active, quiet.pointers]
  onwards thread p found := ⟨p, quiet.pointers ▸ found, .inl rfl⟩

theorem Leads.trans (first : t.Leads t') (second : t'.Leads u) : t.Leads u where
  pins := second.pins.trans first.pins
  summaries := second.summaries.trans first.summaries
  revised := second.revised
  active thread := (second.active thread).trans (first.active thread)
  onwards thread p found := by
    obtain ⟨p', found', onwards⟩ := first.onwards thread p found
    obtain ⟨p'', found'', onwards'⟩ := second.onwards thread p' found'
    exact ⟨p'', found'', onwards.trans onwards'⟩

theorem Leads.activeSummary (leads : t.Leads t') (thread : ThreadKey) :
    t'.activeSummary thread = t.activeSummary thread := by
  rw [ContextTables.activeSummary, ContextTables.activeSummary, leads.active, leads.summaries]

theorem Leads.moves (leads : t.Leads t') : t.Onwards t' where
  pointers := leads.onwards
  pins branch := .inl (by rw [pinsOf, pinsOf, leads.pins])

theorem Leads.keeps (leads : t.Leads t') : t.KeepsSummaries t' := fun id s found => by rwa [leads.summaries]

end ContextTables

open ContextTables

theorem archiveMessages_quiet (messages : List ContextMessage) :
    Moves Quiet (archiveMessages ctx messages) := by
  induction messages with
  | nil => exact Moves.pure Quiet.refl _
  | cons m rest ih =>
      refine Quiet.bind (Moves.get Quiet.refl) fun t => ?_
      refine Quiet.bind (Moves.ensure Quiet.refl _ _) fun _ => ?_
      refine Quiet.bind (Moves.modify fun t => ?_) fun _ => ih
      split
      · exact ⟨rfl, rfl, rfl⟩
      · exact Quiet.refl t

theorem ContextHost.offload_quiet (m : ContextMessage) (text : String) :
    Moves Quiet (host.offload ctx m text) := by
  refine Quiet.bind (Moves.raising Quiet.refl _) fun writer => ?_
  refine Quiet.bind (Moves.get Quiet.refl) fun t => ?_
  refine Quiet.bind (Moves.raising Quiet.refl _) fun artifact => ?_
  refine Quiet.bind (Moves.modify fun t => ?_) fun _ => Moves.pure Quiet.refl _
  split
  · exact ⟨rfl, rfl, rfl⟩
  · exact Quiet.refl t

theorem ContextHost.prepareMessage_quiet (input : ComposeInput) (m : ContextMessage) :
    Moves Quiet (host.prepareMessage input m) := by
  refine Quiet.bind (Moves.raising Quiet.refl _) fun attached => ?_
  dsimp only
  split
  · refine Moves.ite ?_ (Moves.pure Quiet.refl _)
    exact Quiet.bind (host.offload_quiet _ _) fun _ => Moves.pure Quiet.refl _
  · exact Moves.pure Quiet.refl _

theorem ContextHost.prepareMessages_quiet (input : ComposeInput) (messages : List ContextMessage) :
    Moves Quiet (host.prepareMessages input messages) := by
  induction messages with
  | nil => exact Moves.pure Quiet.refl _
  | cons m rest ih =>
      refine Quiet.bind (host.prepareMessage_quiet input m) fun p => ?_
      exact Quiet.bind ih fun later => Moves.pure Quiet.refl _

/-- What reading the pointer does. -/
theorem readPointer_wp (revised : t.pointers.Revised) :
    wp (readPointer ctx)
      (fun p t' => t.Leads t' ∧ t'.pointers.get ctx.thread = some p ∧ p.inputRevision = ctx.inputRevision ∧
        ((∃ q, t.pointers.get ctx.thread = some q ∧ ctx.inputRevision ≤ q.inputRevision) → t' = t))
      (fun _ t' => t' = t) t := by
  rw [readPointer, wp_bind, wp_get]
  refine wp_raising_bind (fun _ _ => rfl) fun ⟨p, pointers⟩ read => ?_
  have read := mapError_eq_ok.mp read
  rw [wp_bind, wp_modify, wp_pure]
  obtain ⟨-, input, revised', after⟩ := contextPointer_eq_ok revised read
  have cases := contextPointer_cases revised read
  have found : ContextTables.pointers { t with pointers } = pointers := rfl
  refine ⟨⟨rfl, rfl, revised', fun thread => ?_, fun thread q before => ?_⟩, ?_, input, ?_⟩
  · rw [active, active, found, after]
    split
    · rename_i here
      rcases cases with ⟨same, -⟩ | ⟨none, rfl⟩ | ⟨q, old, -, rfl⟩
      · rw [here, same]
      · rw [here, none]
        rfl
      · rw [here, old]
        rfl
    · rfl
  · rw [found, after]
    split
    · rename_i here
      rcases cases with ⟨same, -⟩ | ⟨none, -⟩ | ⟨q', old, older, rfl⟩
      · rw [here, same] at before
        cases before
        exact ⟨p, rfl, .inl rfl⟩
      · rw [here, none] at before
        cases before
      · rw [here, old] at before
        cases before
        exact ⟨_, rfl, .inr ⟨Nat.lt_succ_self _, older.le⟩⟩
    · exact ⟨q, before, .inl rfl⟩
  · rw [found, after, if_pos rfl]
  · rintro ⟨q, before, current⟩
    rcases cases with ⟨-, rfl⟩ | ⟨none, -⟩ | ⟨q', old, older, -⟩
    · rfl
    · cases before.symm.trans none
    · cases before.symm.trans old
      exact absurd current (Nat.not_le.mpr older)

/-! ## What a composition has read -/

structure ContextTables.Sound (t : ContextTables) : Prop where
  revised : t.pointers.Revised
  pinned : ∀ branch record, t.pins.get? branch = some record → record.payload.revision = record.revision
  keyed : ∀ id s, t.summaries.get id = some s → s.summaryId = id

theorem ContextTables.Sound.leads (sound : t.Sound) (leads : t.Leads t') : t'.Sound where
  revised := leads.revised
  pinned branch record row := sound.pinned branch record (leads.pins ▸ row)
  keyed id s found := sound.keyed id s (leads.summaries ▸ found)

/-- What was read when a composition began is there, or has been replaced by what is later. -/
structure Composition.Reads (t : ContextTables) (c : Composition) : Prop where
  input : c.pointer.inputRevision = c.input.ctx.inputRevision
  pointer : ∃ p, t.pointers.get c.input.ctx.thread = some p ∧ c.pointer.Onwards p
  pins : t.pinsOf c.input.ctx.branch = c.pins ∨ c.pins.revision < (t.pinsOf c.input.ctx.branch).revision

variable {c : Composition} {job : Compaction}

theorem Composition.Reads.moves (reads : c.Reads t) (moves : t.Onwards t') : c.Reads t' where
  input := reads.input
  pointer := by
    obtain ⟨p, found, onwards⟩ := reads.pointer
    obtain ⟨p', found', onwards'⟩ := moves.pointers _ p found
    exact ⟨p', found', onwards.trans onwards'⟩
  pins := by
    rcases moves.pins c.input.ctx.branch with same | later
    · rw [same]
      exact reads.pins
    · rcases reads.pins with here | before
      · exact .inr (here ▸ later)
      · exact .inr (before.trans later)

/-! ## One piece -/

theorem ContextHost.begin_wp (sound : t.Sound) (input : ComposeInput) :
    wp (host.begin input) (fun c t' => t.Leads t' ∧ c.Reads t') (fun _ t' => t.Leads t') t := by
  rw [ContextHost.begin, wp_bind]
  refine (archiveMessages_quiet _ t).mono (fun _ u quiet => ?_) fun _ u quiet => quiet.leads sound.revised
  have begun := quiet.leads sound.revised
  refine wp_raising_bind (fun _ _ => begun) fun _ _ => ?_
  rw [wp_bind]
  refine (readPointer_wp begun.revised).mono (fun p t' ⟨leads, found, current, _⟩ => ?_)
    fun _ t' same => same ▸ begun
  have led := begun.trans leads
  refine wp_raising_bind (fun _ _ => led) fun budget _ => ?_
  rw [wp_bind, wp_get]
  refine wp_raising_bind (fun _ _ => led) fun memories _ => ?_
  rw [wp_pure]
  exact ⟨led, current, ⟨p, found, .inl rfl⟩, .inl rfl⟩

/-- The messages with their attachments. -/
structure Composition.Prepares (host : ContextHost) (t : ContextTables) (c c' : Composition)
    (t' : ContextTables) : Prop where
  quiet : t.Quiet t'
  messages : host.prepareMessages c.input c.history t = .ok (c'.working, c'.artifactRefs) t'
  rest : c' = { c with working := c'.working, artifactRefs := c'.artifactRefs }

theorem Composition.prepare_wp :
    wp (c.prepare host) (fun c' t' => c.Prepares host t c' t') (fun _ t' => t.Quiet t') t := by
  have quiet := host.prepareMessages_quiet c.input c.history t
  rw [Composition.prepare, wp_bind]
  unfold wp at quiet ⊢
  cases prepared : host.prepareMessages c.input c.history t with
  | ok messages t' =>
      rw [prepared] at quiet
      exact ⟨quiet, prepared, rfl⟩
  | error e t' =>
      rw [prepared] at quiet
      exact quiet

/-- The pointer is read again without a change. -/
theorem Composition.Reads.readPointer (reads : c.Reads t) (revised : t.pointers.Revised) :
    wp (readPointer c.input.ctx)
      (fun p t' => t' = t ∧ t.pointers.get c.input.ctx.thread = some p) (fun _ t' => t' = t) t := by
  refine (readPointer_wp revised).mono (fun p t' ⟨_, found, _, same⟩ => ?_) fun _ _ same => same
  obtain ⟨q, before, onwards⟩ := reads.pointer
  have same := same ⟨q, before, reads.input ▸ onwards.input⟩
  exact ⟨same, same ▸ found⟩

/-- A compaction is made from what its composition has read, and from the summary before. -/
structure Composition.Starts (t : ContextTables) (c : Composition) (plan : ContextPlan)
    (previous : Option CompactionSummary) (job : Compaction) : Prop where
  pointer : job.pointer = c.pointer
  pins : job.pins = c.pins
  summary : c.pointer.summaryIn t = .ok previous
  candidates : job.candidates = c.candidates plan.working
  kept : job.kept = c.kept plan.working
  summaryRefs : job.summaryRefs = plan.summaryRefs
  covers : ∀ ref, ref ∈ job.candidateRefs ↔ ref ∈ previous.elim [] CompactionSummary.coveredMessageRefs ∨
    ref ∈ (c.candidates plan.working).map ContextMessage.id
  constraints : ∀ text, text ∈ job.constraints ↔
    text ∈ previous.elim [] CompactionSummary.constraints ∨ text ∈ c.constraints ++ c.pins.texts

theorem Composition.compact_wp {plan : ContextPlan} (reads : c.Reads t) (revised : t.pointers.Revised) :
    wp (c.compact plan) (fun job t' => t' = t ∧ ∃ previous, c.Starts t plan previous job)
      (fun _ t' => t' = t) t := by
  rw [Composition.compact, wp_bind]
  refine (reads.readPointer revised).mono (fun p t' ⟨same, found⟩ => ?_) fun _ _ same => same
  subst same
  rw [wp_bind, wp_get]
  refine wp_ensure_bind (fun _ => rfl) fun pinned => ?_
  refine wp_ensure_bind (fun _ => rfl) fun current => ?_
  refine wp_raising_bind (fun _ _ => rfl) fun previous summary => ?_
  refine wp_raising_bind (fun _ _ => rfl) fun messages _ => ?_
  refine wp_raising_bind (fun _ _ => rfl) fun _ _ => ?_
  refine wp_ensure_bind (fun _ => rfl) fun _ => ?_
  rw [wp_pure]
  obtain ⟨q, before, onwards⟩ := reads.pointer
  cases before.symm.trans found
  have same := onwards.eq current.1
  have pins := reads.pins.resolve_right fun later => absurd pinned (Nat.ne_of_gt later)
  refine ⟨rfl, previous, same, pins, same ▸ summary, rfl, rfl, rfl, fun ref => ?_, fun text => ?_⟩
  · rw [List.mem_eraseDups, List.mem_append]
  · rw [List.mem_eraseDups, List.append_assoc, List.mem_append, pins]

/-- The summary that an answer gives is stored. -/
structure Compaction.Stores (t : ContextTables) (job : Compaction) (answer : Except ContextFault SummaryFields)
    (made : SummaryMade) (id : SummaryId) (s : CompactionSummary) (t' : ContextTables) : Prop where
  answered : ∃ fields, answer = .ok fields ∧ id = fields.summaryId.getD made.summaryId
  keyed : s.summaryId = id
  covered : s.coveredMessageRefs = job.candidateRefs
  constraints : ∀ text ∈ job.constraints, text ∈ s.constraints
  tables : t' = { t with summaries := t.summaries.write id s }

theorem Compaction.store_wp (job : Compaction) (answer : Except ContextFault SummaryFields)
    (made : SummaryMade) :
    wp (job.store answer made) (fun id t' => ∃ s, job.Stores t answer made id s t') (fun _ t' => t' = t) t := by
  rw [Compaction.store]
  refine wp_raising_bind (fun _ _ => rfl) fun fields answered => ?_
  refine wp_ensure_bind (fun _ => rfl) fun kept => ?_
  refine wp_ensure_bind (fun _ => rfl) fun _ => ?_
  refine wp_raising_bind (fun _ _ => rfl) fun s built => ?_
  rw [wp_bind, wp_modify, wp_pure]
  obtain ⟨_, -, built⟩ := bind_eq_ok.mp built
  obtain ⟨goal, -, built⟩ := bind_eq_ok.mp built
  obtain ⟨constraints, given, built⟩ := bind_eq_ok.mp built
  have given := orThrow_eq_ok.mp given
  cases built
  rw [given] at kept
  exact ⟨_, ⟨fields, answered, rfl⟩, rfl, rfl, kept, rfl⟩

/-- The pointer names the summary, in the place of the pointer that its composition has read. -/
structure Composition.Activates (t : ContextTables) (c : Composition) (id : SummaryId) (t' : ContextTables) :
    Prop where
  pointer : t.pointers.get c.input.ctx.thread = some c.pointer
  pins : t.pinsOf c.input.ctx.branch = c.pins
  tables : t' = { t with pointers := t'.pointers }
  revised : t'.pointers.Revised
  after : ∀ thread, t'.pointers.get thread =
    if thread = c.input.ctx.thread then
      some ⟨c.pointer.revision + 1, c.input.ctx.inputRevision, some id⟩ else t.pointers.get thread

theorem Composition.activate_wp (reads : c.Reads t) (revised : t.pointers.Revised) (id : SummaryId) :
    wp (c.activate id) (fun _ t' => c.Activates t id t') (fun _ t' => t' = t) t := by
  rw [Composition.activate, wp_bind, wp_get]
  refine wp_ensure_bind (fun _ => rfl) fun pinned => ?_
  refine wp_raising_bind (fun _ _ => rfl) fun pointers written => ?_
  rw [wp_modify]
  obtain ⟨current, rfl⟩ := Records.compareAndSet_eq_ok.mp (mapError_eq_ok.mp written)
  obtain ⟨q, found, onwards⟩ := reads.pointer
  obtain ⟨record, row, rfl⟩ := Records.get_eq_some.mp found
  have same : record.payload = c.pointer := by
    refine onwards.eq ?_
    rw [revised _ record row, ← Records.revision_of_get row]
    exact current
  refine ⟨same ▸ found, reads.pins.resolve_right fun later => absurd pinned (Nat.ne_of_gt later), rfl,
    revised.put _ rfl, fun thread => Records.get_put ..⟩

/-- What `_compose` makes of the summary of a compaction. -/
def Composition.compacted (host : ContextHost) (c : Composition) (job : Compaction) (id : SummaryId)
    (summary : CompactionSummary) : ContextPlan where
  working := job.candidates.filter ContextMessage.hasImage ++ job.kept
  system := host.summarySystem c.baseSystem summary
  summaryRefs := job.summaryRefs ++ [id]
  summary := some summary

theorem Composition.conclude_wp (revised : t.pointers.Revised) (id : SummaryId) :
    wp (c.conclude host job id) (fun v t' => t.Leads t' ∧ ∃ summary pointer,
        t.summaries.get id = some summary ∧ c.finish host (c.compacted host job id summary) pointer = .ok v)
      (fun _ t' => t.Leads t') t := by
  have quiet := (Quiet.refl t).leads revised
  rw [Composition.conclude, wp_bind, wp_get]
  refine wp_raising_bind (fun _ _ => quiet) fun summary found => ?_
  rw [wp_bind]
  refine (readPointer_wp revised).mono (fun p t' ⟨leads, _⟩ => ?_) fun _ _ same => same ▸ quiet
  exact wp_raising (fun _ _ => leads) fun v finished =>
    ⟨leads, summary, p, orThrow_eq_ok.mp found, finished⟩

/-! ## What a step of a composition does -/

/-- The outcome of the pieces, with what is in the tables afterwards. -/
inductive ContextCall.Does (host : ContextHost) (t : ContextTables) (x : ContextCall) :
    CallStep → CallProgress → ContextTables → Prop where
  | prepares {c : Composition} {t' : ContextTables} (phase : x.phase = .begun)
      (prepares : x.composition.Prepares host t c t') :
      Does host t x .prepare (.goes .prepared c) t'
  | ends {plan : ContextPlan} {v : Composed} (phase : x.phase = .prepared)
      (planned : x.composition.plan host t = .ok plan) (small : ¬x.composition.Compacts host plan)
      (finished : x.composition.finish host plan x.composition.pointer = .ok v) :
      Does host t x .proceed (.done v) t
  | compacts {plan : ContextPlan} {previous : Option CompactionSummary} {job : Compaction}
      (phase : x.phase = .prepared) (planned : x.composition.plan host t = .ok plan)
      (large : x.composition.Compacts host plan) (starts : x.composition.Starts t plan previous job) :
      Does host t x .proceed (.goes (.generating job) x.composition) t
  | stores {job : Compaction} {answer : Except ContextFault SummaryFields} {made : SummaryMade}
      {id : SummaryId} {s : CompactionSummary} {t' : ContextTables} (phase : x.phase = .generating job)
      (stores : job.Stores t answer made id s t') :
      Does host t x (.answer answer made) (.goes (.stored job id) x.composition) t'
  | activates {job : Compaction} {id : SummaryId} {t' : ContextTables} (phase : x.phase = .stored job id)
      (activates : x.composition.Activates t id t') :
      Does host t x .activate (.goes (.activated job id) x.composition) t'
  | concludes {job : Compaction} {id : SummaryId} {s : CompactionSummary} {pointer : ContextPointer}
      {v : Composed} {t' : ContextTables} (phase : x.phase = .activated job id) (leads : t.Leads t')
      (found : t.summaries.get id = some s)
      (finished : x.composition.finish host (x.composition.compacted host job id s) pointer = .ok v) :
      Does host t x .conclude (.done v) t'

/-- Where a step raises, only the end of `_compose` may have written a pointer. -/
structure ContextTables.Raises (t : ContextTables) (step : CallStep) (t' : ContextTables) : Prop where
  leads : t.Leads t'
  pointers : step ≠ .conclude → t'.pointers = t.pointers

variable {x : ContextCall} {step : CallStep} {run : ContextM CallProgress}

theorem ContextCall.advance_wp (sound : t.Sound) (reads : x.composition.Reads t)
    (turn : x.advance host step = some run) :
    wp run (fun p t' => x.Does host t step p t') (fun _ t' => t.Raises step t') t := by
  have revised := sound.revised
  have unchanged : t.Raises step t := ⟨(Quiet.refl t).leads revised, fun _ => rfl⟩
  unfold ContextCall.advance at turn
  dsimp only at turn
  split at turn
  case h_1 phase =>
    cases turn
    rw [wp_bind]
    exact Composition.prepare_wp.mono (fun c t' prepares => .prepares phase prepares)
      fun _ t' quiet => ⟨quiet.leads revised, fun _ => quiet.pointers⟩
  case h_2 phase =>
    cases turn
    rw [wp_bind, wp_get]
    refine wp_raising_bind (fun _ _ => unchanged) fun plan planned => ?_
    split
    case isTrue large =>
      rw [wp_bind]
      refine (Composition.compact_wp reads revised).mono (fun job t' ⟨same, previous, starts⟩ => ?_)
        fun _ _ same => same ▸ unchanged
      subst same
      exact .compacts phase planned large starts
    case isFalse small =>
      exact wp_raising_bind (fun _ _ => unchanged) fun v finished => .ends phase planned small finished
  case h_3 job answer made phase =>
    cases turn
    rw [wp_bind]
    exact (Compaction.store_wp job answer made).mono (fun id t' ⟨s, stores⟩ => .stores phase stores)
      fun _ _ same => same ▸ unchanged
  case h_4 job id phase =>
    cases turn
    rw [wp_bind]
    exact (Composition.activate_wp reads revised id).mono (fun _ t' activates => .activates phase activates)
      fun _ _ same => same ▸ unchanged
  case h_5 job id phase =>
    cases turn
    rw [wp_bind]
    refine (Composition.conclude_wp revised id).mono (fun v t' ⟨leads, s, p, found, finished⟩ => ?_)
      fun _ _ leads => ⟨leads, fun other => absurd rfl other⟩
    exact .concludes phase leads found finished
  case h_6 => cases turn

end MiHarness

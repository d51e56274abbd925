import MiHarness.Context.Pieces

/-!
# Constraints that survive compaction

A summary becomes active only where the pointer, the input and the pins are those that its composition has
read (`activation_current`), in every run.

`_compact` gives the model that summarises the constraints of the summary before, the hard constraints and
the pins, and refuses an answer without one of them.  But the answer may name the id of the summary, and with
it replace a summary that is stored.  In the runs in which no answer does that, the active summary of a
thread has what was asked of every compaction of its chain (`constraints_survive`).
-/

namespace MiHarness

open Library ContextTables

variable {host : ContextHost} {t t' : ContextTables} {c : Composition} {job : Compaction} {x : ContextCall}
  {step : CallStep}

/-! ## Runs -/

/-- What is known in every run. -/
structure ContextWorld.Steady (w : ContextWorld) : Prop where
  tables : w.tables.Sound
  reads : ∀ x ∈ w.calls, x.composition.Reads w.tables

/-- A step of the system. -/
inductive ContextWorld.Stepped (host : ContextHost) (w : ContextWorld) : ContextAction → ContextWorld → Prop where
  | pinned {a : ContextAction} {branch : BranchId} {pins : Pins} {revision : Nat}
      (same : pins.revision = revision) (later : w.tables.pins.revision branch < revision) :
      Stepped host w a
        { w with tables := { w.tables with pins := w.tables.pins.put branch { revision, payload := pins } } }
  | idle {a : ContextAction} : Stepped host w a w
  | begun {input : ComposeInput} {c : Composition} {t' : ContextTables}
      (begins : host.begin input w.tables = .ok c t') :
      Stepped host w (.begin input) { w with tables := t', calls := w.calls ++ [⟨c, .begun⟩] }
  | refused {input : ComposeInput} {e : ContextFault} {t' : ContextTables}
      (refuses : host.begin input w.tables = .error e t') :
      Stepped host w (.begin input) { w with tables := t' }
  | goes {i : Nat} {step : CallStep} {x : ContextCall} {phase : CallPhase} {c : Composition}
      {t' : ContextTables} (found : w.calls[i]? = some x)
      (does : x.Does host w.tables step (.goes phase c) t') :
      Stepped host w (.call i step)
        { w with tables := t', calls := w.calls.set i ⟨c, phase⟩, chain := w.extend x step }
  | done {i : Nat} {step : CallStep} {x : ContextCall} {composed : Composed} {t' : ContextTables}
      (found : w.calls[i]? = some x) (does : x.Does host w.tables step (.done composed) t') :
      Stepped host w (.call i step)
        { w with tables := t', calls := w.calls.eraseIdx i, composed := composed :: w.composed }
  | raised {i : Nat} {step : CallStep} {t' : ContextTables} (raises : w.tables.Raises step t') :
      Stepped host w (.call i step) { w with tables := t', calls := w.calls.eraseIdx i }

section Steps

variable {w w' : ContextWorld} {a : ContextAction} {i : Nat}

theorem ContextTables.Sound.pinsOf_revision (sound : t.Sound) (branch : BranchId) :
    (t.pinsOf branch).revision = t.pins.revision branch := by
  unfold ContextTables.pinsOf Records.revision Records.get
  cases row : t.pins.get? branch with
  | none => rfl
  | some record => exact sound.pinned branch record row

theorem ContextWorld.Steady.stepped (steady : w.Steady) (h : w.next host a = some w') :
    w.Stepped host a w' := by
  cases a with
  | pin branch expected pin =>
      unfold ContextWorld.next at h
      dsimp only at h
      split at h
      case h_1 written =>
        cases h
        obtain ⟨current, rfl⟩ := Records.compareAndSet_eq_ok.mp written
        exact .pinned rfl (current.trans_lt (Nat.lt_succ_self _))
      case h_2 =>
        cases h
        exact .idle
  | fork source target =>
      unfold ContextWorld.next at h
      dsimp only at h
      split at h
      case h_1 absent =>
        cases h
        have first : w.tables.pins.revision target = 0 := Records.revision_of_absent absent
        rw [Records.write, first]
        exact .pinned rfl (first.trans_lt Nat.one_pos)
      case h_2 =>
        cases h
        exact .idle
      case h_3 => cases h
  | begin input =>
      unfold ContextWorld.next at h
      dsimp only at h
      split at h
      case h_1 begins =>
        cases h
        exact .begun begins
      case h_2 refuses =>
        cases h
        exact .refused refuses
  | call i step =>
      obtain ⟨x, found, h⟩ := Option.bind_eq_some_iff.mp h
      obtain ⟨run, turn, h⟩ := Option.bind_eq_some_iff.mp h
      have reads := steady.reads x (List.mem_of_getElem? found)
      have spec := ContextCall.advance_wp steady.tables reads turn
      split at h
      case h_1 returned =>
        cases h
        exact .goes found (spec.of_ok returned)
      case h_2 returned =>
        cases h
        exact .done found (spec.of_ok returned)
      case h_3 raises =>
        cases h
        exact .raised (spec.of_error raises)

/-- Pins are replaced by later ones. -/
theorem ContextTables.Sound.put_pins (sound : t.Sound) {branch : BranchId} {pins : Pins} {revision : Nat}
    (same : pins.revision = revision) (later : t.pins.revision branch < revision) :
    t.Onwards { t with pins := t.pins.put branch { revision, payload := pins } } ∧
      ContextTables.Sound { t with pins := t.pins.put branch { revision, payload := pins } } := by
  refine ⟨⟨fun thread p found => ⟨p, found, .inl rfl⟩, fun branch' => ?_⟩,
    sound.revised, fun branch' record row => ?_, sound.keyed⟩
  · unfold ContextTables.pinsOf
    rw [Records.get_put]
    split
    · rename_i here
      refine .inr ?_
      rw [here, Option.getD_some, same]
      exact (sound.pinsOf_revision branch).trans_lt later
    · exact .inl rfl
  · have row := (Table.get?_put ..).symm.trans row
    split at row
    · cases row
      exact same
    · exact sound.pinned branch' record row

theorem Composition.Activates.moves {id : SummaryId} (activates : c.Activates t id t') (reads : c.Reads t) :
    t.Onwards t' := by
  refine ⟨fun thread p found => ?_, fun branch => ?_⟩
  · rw [activates.after]
    split
    · rename_i here
      rw [here, activates.pointer] at found
      cases found
      exact ⟨_, rfl, .inr ⟨Nat.lt_succ_self _, reads.input.le⟩⟩
    · exact ⟨p, found, .inl rfl⟩
  · rw [activates.tables]
    exact .inl rfl

/-- A step of a composition moves pointers and pins on, and the composition keeps what it has read. -/
theorem ContextCall.Does.moves {phase : CallPhase} (does : x.Does host t step (.goes phase c) t')
    (sound : t.Sound) (reads : x.composition.Reads t) :
    t.Onwards t' ∧ t'.Sound ∧ c.Reads t' := by
  cases does with
  | prepares _ prepares =>
      have leads := prepares.quiet.leads sound.revised
      have reads := reads.moves leads.moves
      refine ⟨leads.moves, sound.leads leads, ?_⟩
      rw [prepares.rest]
      exact ⟨reads.input, reads.pointer, reads.pins⟩
  | compacts =>
      have leads := (Quiet.refl t).leads sound.revised
      exact ⟨leads.moves, sound, reads⟩
  | @stores _ _ _ id s _ _ stores =>
      have moves : t.Onwards t' := by
        rw [stores.tables]
        exact ⟨fun thread p found => ⟨p, found, .inl rfl⟩, fun branch => .inl rfl⟩
      refine ⟨moves, ?_, reads.moves moves⟩
      rw [stores.tables]
      refine ⟨sound.revised, sound.pinned, fun id' s' found => ?_⟩
      have found := (Records.get_put ..).symm.trans found
      split at found
      · rename_i here
        cases found
        rw [here]
        exact stores.keyed
      · exact sound.keyed id' s' found
  | activates _ activates =>
      have moves := activates.moves reads
      refine ⟨moves, ?_, reads.moves moves⟩
      rw [activates.tables]
      exact ⟨activates.revised, sound.pinned, sound.keyed⟩

theorem ContextCall.Does.leads {v : Composed} (does : x.Does host t step (.done v) t')
    (revised : t.pointers.Revised) : t.Leads t' := by
  cases does with
  | ends => exact (Quiet.refl _).leads revised
  | concludes _ leads => exact leads

theorem ContextWorld.Steady.leads (steady : w.Steady) (leads : w.tables.Leads t') {calls : List ContextCall}
    (each : ∀ x ∈ calls, x ∈ w.calls ∨ x.composition.Reads t') (composed : List Composed) :
    ContextWorld.Steady { w with tables := t', calls, composed } where
  tables := steady.tables.leads leads
  reads x listed := by
    rcases each x listed with old | new
    · exact (steady.reads x old).moves leads.moves
    · exact new

theorem ContextWorld.Steady.keeps (steady : w.Steady) (stepped : w.Stepped host a w') : w'.Steady := by
  cases stepped with
  | pinned same later =>
      obtain ⟨moves, sound⟩ := steady.tables.put_pins same later
      exact ⟨sound, fun x listed => (steady.reads x listed).moves moves⟩
  | idle => exact steady
  | begun begins =>
      obtain ⟨leads, reads⟩ := (ContextHost.begin_wp steady.tables _).of_ok begins
      refine steady.leads leads (fun x listed => ?_) _
      rcases List.mem_append.mp listed with old | new
      · exact .inl old
      · rw [List.mem_singleton.mp new]
        exact .inr reads
  | refused refuses =>
      have leads := (ContextHost.begin_wp steady.tables _).of_error refuses
      exact steady.leads leads (fun _ listed => .inl listed) _
  | goes found does =>
      obtain ⟨moves, sound, reads⟩ :=
        does.moves steady.tables (steady.reads _ (List.mem_of_getElem? found))
      refine ⟨sound, fun y listed => ?_⟩
      rcases List.mem_or_eq_of_mem_set listed with old | rfl
      · exact (steady.reads y old).moves moves
      · exact reads
  | done found does =>
      have leads := does.leads steady.tables.revised
      exact steady.leads leads (fun _ listed => .inl (List.mem_of_mem_eraseIdx listed)) _
  | raised raises =>
      exact steady.leads raises.leads (fun _ listed => .inl (List.mem_of_mem_eraseIdx listed)) _

theorem ContextWorld.steady {C : ContextWorld → ContextAction → Prop}
    (reachable : (contextRuns host C).Reachable w) : w.Steady := by
  refine reachable.invariant (I := ContextWorld.Steady) ?_ fun w a w' _ steady step => ?_
  · rintro _ rfl
    refine ⟨⟨fun _ _ row => ?_, fun _ _ row => ?_, fun _ _ found => ?_⟩,
      fun _ listed => absurd listed List.not_mem_nil⟩
    · cases row
    · cases row
    · cases found
  · exact steady.keeps (steady.stepped step.2)

/-- What a step does to the summary that a thread names. -/
theorem ContextWorld.Stepped.active (stepped : w.Stepped host a w') (steady : w.Steady)
    {thread : ThreadKey} (changed : w'.tables.active thread ≠ w.tables.active thread) :
    ∃ i x job id, a = .call i .activate ∧ w.calls[i]? = some x ∧ x.phase = .stored job id ∧
      x.composition.input.ctx.thread = thread ∧ x.composition.Activates w.tables id w'.tables := by
  cases stepped with
  | pinned => exact absurd rfl changed
  | idle => exact absurd rfl changed
  | begun begins =>
      have leads := ((ContextHost.begin_wp steady.tables _).of_ok begins).1
      exact absurd (leads.active thread) changed
  | refused refuses =>
      have leads := (ContextHost.begin_wp steady.tables _).of_error refuses
      exact absurd (leads.active thread) changed
  | goes found does =>
      cases does with
      | prepares _ prepares =>
          exact absurd ((prepares.quiet.leads steady.tables.revised).active thread) changed
      | compacts => exact absurd rfl changed
      | stores _ stores =>
          refine absurd ?_ changed
          show ContextTables.active _ thread = _
          rw [stores.tables]
          rfl
      | activates phase activates =>
          refine ⟨_, _, _, _, rfl, found, phase, ?_, activates⟩
          by_contra other
          refine changed ?_
          show ContextTables.active _ thread = _
          rw [ContextTables.active, activates.after, if_neg (Ne.symm other)]
          rfl
  | done found does => exact absurd ((does.leads steady.tables.revised).active thread) changed
  | raised raises => exact absurd (raises.leads.active thread) changed

end Steps

/-- In every run, a thread comes to name another summary only where a compaction activates the one it has
stored, and then the pointer, the input and the pins are those that its composition has read.  A step of a
compaction that raises leaves the pointers. -/
theorem activation_current {w : ContextWorld} (reachable : (contextSystem host).Reachable w) :
    (∀ a w', w.next host a = some w' → ∀ thread, w'.tables.active thread ≠ w.tables.active thread →
      ∃ i x job id, a = .call i .activate ∧ w.calls[i]? = some x ∧ x.phase = .stored job id ∧
        x.composition.input.ctx.thread = thread ∧ w'.tables.active thread = some id ∧
        w.tables.pointers.get thread = some x.composition.pointer ∧
        x.composition.pointer.inputRevision = x.composition.input.ctx.inputRevision ∧
        w.tables.pinsOf x.composition.input.ctx.branch = x.composition.pins) ∧
      ∀ (i : Nat) (x : ContextCall) (step : CallStep) (run : ContextM CallProgress) (e : ContextFault)
        (t' : ContextTables), w.calls[i]? = some x → x.advance host step = some run →
        run w.tables = .error e t' → step ≠ .conclude → t'.pointers = w.tables.pointers := by
  have steady := ContextWorld.steady reachable
  refine ⟨fun a w' next thread changed => ?_, fun i x step run e t' found turn raises other => ?_⟩
  · obtain ⟨i, x, job, id, rfl, found, phase, rfl, activates⟩ := (steady.stepped next).active steady changed
    refine ⟨i, x, job, id, rfl, found, phase, rfl, ?_, activates.pointer,
      (steady.reads x (List.mem_of_getElem? found)).input, activates.pins⟩
    rw [ContextTables.active, activates.after, if_pos rfl]
    rfl
  · have reads := steady.reads x (List.mem_of_getElem? found)
    exact ((ContextCall.advance_wp steady.tables reads turn).of_error raises).pointers other

/-! ## Chains of compactions -/

theorem ContextPointer.summaryIn_eq_ok {p : ContextPointer} {summary : Option CompactionSummary}
    (h : p.summaryIn t = .ok summary) :
    (p.summaryRef = none ∧ summary = none) ∨
      ∃ id s, p.summaryRef = some id ∧ t.summaries.get id = some s ∧ summary = some s := by
  unfold summaryIn at h
  split at h
  case h_1 none =>
    cases h
    exact .inl ⟨none, rfl⟩
  case h_2 id named =>
    obtain ⟨s, found, h⟩ := bind_eq_ok.mp h
    cases h
    exact .inr ⟨id, s, named, orThrow_eq_ok.mp found, rfl⟩

theorem ContextPointer.summaryIn_keeps {p : ContextPointer} {summary : Option CompactionSummary}
    (h : p.summaryIn t = .ok summary) (keeps : t.KeepsSummaries t') : p.summaryIn t' = .ok summary := by
  unfold summaryIn
  rcases summaryIn_eq_ok h with ⟨none, rfl⟩ | ⟨id, s, named, found, rfl⟩
  · rw [none]
  · rw [named]
    simp only [keeps id s found, orThrow, ok_bind, pure, Except.pure]

theorem Composition.plan_keeps {plan : ContextPlan} (h : c.plan host t = .ok plan)
    (keeps : t.KeepsSummaries t') : c.plan host t' = .ok plan := by
  obtain ⟨summary, read, h⟩ := bind_eq_ok.mp h
  exact bind_eq_ok.mpr ⟨summary, ContextPointer.summaryIn_keeps read keeps, h⟩

/-- The active summary of a thread has what was asked of the compactions of its chain. -/
def ContextTables.Holds (t : ContextTables) (thread : ThreadKey) (chain : List Activation) : Prop :=
  match t.active thread with
  | none => chain = []
  | some id => ∃ s, t.summaries.get id = some s ∧
      ∀ a ∈ chain, ∀ text ∈ a.constraints, text ∈ s.constraints

theorem ContextTables.Holds.of_same {thread : ThreadKey} {chain : List Activation}
    (holds : t.Holds thread chain) (active : t'.active thread = t.active thread)
    (keeps : t.KeepsSummaries t') : t'.Holds thread chain := by
  unfold ContextTables.Holds at holds ⊢
  rw [active]
  split
  case h_1 none =>
    rw [none] at holds
    exact holds
  case h_2 id named =>
    rw [named] at holds
    obtain ⟨s, found, each⟩ := holds
    exact ⟨s, keeps id s found, each⟩

/-- What a compaction was started from is still what it would be started from. -/
def Compaction.Made (host : ContextHost) (t : ContextTables) (c : Composition) (job : Compaction) : Prop :=
  ∃ plan previous, c.plan host t = .ok plan ∧ c.Compacts host plan ∧ c.Starts t plan previous job

/-- The summary of a compaction is stored. -/
def Compaction.Summarised (t : ContextTables) (job : Compaction) (id : SummaryId) : Prop :=
  ∃ s, t.summaries.get id = some s ∧ s.coveredMessageRefs = job.candidateRefs ∧
    ∀ text ∈ job.constraints, text ∈ s.constraints

/-- What is known of a composition in each of its phases. -/
def CallPhase.Known (host : ContextHost) (t : ContextTables) (chain : ThreadKey → List Activation)
    (c : Composition) : CallPhase → Prop
  | .begun => True
  | .prepared => True
  | .generating job => job.Made host t c
  | .stored job id => job.Made host t c ∧ job.Summarised t id
  | .activated job id => job.Made host t c ∧ job.Summarised t id ∧
      ∃ a ∈ chain c.input.ctx.thread, a.summaryId = id ∧ a.replaced = c.pointer

/-- What is known in a run in which stored summaries stay. -/
structure ContextWorld.Chained (host : ContextHost) (w : ContextWorld) : Prop where
  holds : ∀ thread, w.tables.Holds thread (w.chain thread)
  calls : ∀ x ∈ w.calls, x.phase.Known host w.tables w.chain x.composition

/-- A summarising model names no summary that is stored. -/
def ContextWorld.NewSummary (w : ContextWorld) : ContextAction → Prop
  | .call _ (.answer (.ok fields) _) => ∀ id ∈ fields.summaryId, w.tables.summaries.get id = none
  | _ => True

instance (w : ContextWorld) : DecidablePred w.NewSummary := fun
  | .call _ (.answer (.ok fields) _) =>
      inferInstanceAs (Decidable (∀ id ∈ fields.summaryId, w.tables.summaries.get id = none))
  | .call _ (.answer (.error _) _) | .call _ .prepare | .call _ .proceed | .call _ .activate
  | .call _ .conclude | .pin .. | .fork .. | .begin _ => .isTrue trivial

section Chains

variable {w w' : ContextWorld} {a : ContextAction} {chain chain' : ThreadKey → List Activation}

theorem Compaction.Made.keeps (made : job.Made host t c) (keeps : t.KeepsSummaries t') :
    job.Made host t' c := by
  obtain ⟨plan, previous, planned, large, starts⟩ := made
  exact ⟨plan, previous, Composition.plan_keeps planned keeps, large,
    { starts with summary := ContextPointer.summaryIn_keeps starts.summary keeps }⟩

theorem Compaction.Summarised.keeps {id : SummaryId} (summarised : job.Summarised t id)
    (keeps : t.KeepsSummaries t') : job.Summarised t' id := by
  obtain ⟨s, found, rest⟩ := summarised
  exact ⟨s, keeps id s found, rest⟩

theorem CallPhase.Known.keeps {phase : CallPhase} (known : phase.Known host t chain c)
    (keeps : t.KeepsSummaries t') (longer : ∀ thread a, a ∈ chain thread → a ∈ chain' thread) :
    phase.Known host t' chain' c := by
  cases phase with
  | begun => trivial
  | prepared => trivial
  | generating job => exact Compaction.Made.keeps known keeps
  | stored job id => exact ⟨known.1.keeps keeps, known.2.keeps keeps⟩
  | activated job id =>
      obtain ⟨made, stored, a, listed, rest⟩ := known
      exact ⟨made.keeps keeps, stored.keeps keeps, a, longer _ a listed, rest⟩

/-- A step other than an activation leaves the chains. -/
theorem ContextWorld.extend_eq (other : step ≠ .activate) : w.extend x step = w.chain := by
  unfold extend
  split
  · exact absurd rfl other
  · rfl

theorem ContextWorld.extend_activate {id : SummaryId} (phase : x.phase = .stored job id) :
    w.extend x .activate = Function.update w.chain x.composition.input.ctx.thread
      ({ summaryId := id, replaced := x.composition.pointer
         constraints := x.composition.constraints ++
          (w.tables.pinsOf x.composition.input.ctx.branch).texts } ::
        w.chain x.composition.input.ctx.thread) := by
  unfold extend
  rw [phase]

theorem Compaction.Stores.keeps {answer : Except ContextFault SummaryFields} {made : SummaryMade}
    {id : SummaryId} {s : CompactionSummary} (stores : job.Stores t answer made id s t')
    (new : t.summaries.get id = none) : t.KeepsSummaries t' := by
  intro id' s' found
  rw [stores.tables]
  refine (Records.get_put ..).trans ((if_neg ?_).trans found)
  rintro rfl
  cases new.symm.trans found

theorem Composition.Activates.keeps {id : SummaryId} (activates : c.Activates t id t') :
    t.KeepsSummaries t' := fun _ _ found => by rwa [activates.tables]

/-- A summary becomes active: it has the constraints of the one before, those of its composition, and the
pins, which are the ones that the composition has read. -/
theorem ContextWorld.Chained.activates (chained : w.Chained host) {id : SummaryId}
    (known : x.phase.Known host w.tables w.chain x.composition) (phase : x.phase = .stored job id)
    (activates : x.composition.Activates w.tables id t') (thread : ThreadKey) :
    t'.Holds thread (w.extend x .activate thread) := by
  have keeps := activates.keeps
  rw [phase] at known
  obtain ⟨⟨plan, previous, -, -, starts⟩, s, found, -, constraints⟩ := known
  rw [extend_activate phase, Function.update_apply]
  split
  · rename_i here
    subst here
    have active : t'.active x.composition.input.ctx.thread = some id := by
      rw [active, activates.after, if_pos rfl]
      rfl
    unfold ContextTables.Holds
    rw [active]
    refine ⟨s, keeps id s found, fun a listed text mem => constraints text ((starts.constraints text).mpr ?_)⟩
    rcases List.mem_cons.mp listed with rfl | listed
    · exact .inr (activates.pins ▸ mem)
    · -- What the chain asked before is in the summary that this one was made from.
      left
      have before := chained.holds x.composition.input.ctx.thread
      unfold ContextTables.Holds ContextTables.active at before
      rw [activates.pointer, Option.bind_some] at before
      rcases ContextPointer.summaryIn_eq_ok starts.summary with ⟨none, -⟩ | ⟨id', s', named, stored, rfl⟩
      · rw [none] at before
        rw [before] at listed
        exact absurd listed List.not_mem_nil
      · rw [named] at before
        obtain ⟨s'', stored', each⟩ := before
        cases stored.symm.trans stored'
        exact each a listed text mem
  · rename_i other
    refine (chained.holds thread).of_same ?_ keeps
    rw [active, active, activates.after, if_neg other]

/-- Where no stored summary is named, the summaries stay. -/
theorem ContextWorld.Stepped.keepsSummaries (stepped : w.Stepped host a w') (steady : w.Steady)
    (draws : w.Draws a) (new : w.NewSummary a) : w.tables.KeepsSummaries w'.tables := by
  cases stepped with
  | pinned => exact fun _ _ found => found
  | idle => exact fun _ _ found => found
  | begun begins => exact ((ContextHost.begin_wp steady.tables _).of_ok begins).1.keeps
  | refused refuses => exact Leads.keeps ((ContextHost.begin_wp steady.tables _).of_error refuses)
  | done found does => exact (does.leads steady.tables.revised).keeps
  | raised raises => exact raises.leads.keeps
  | goes found does =>
      cases does with
      | prepares _ prepares => exact (prepares.quiet.leads steady.tables.revised).keeps
      | compacts => exact fun _ _ found => found
      | @stores _ answer made id _ _ _ stores =>
          refine stores.keeps ?_
          obtain ⟨fields, rfl, rfl⟩ := stores.answered
          cases named : fields.summaryId with
          | none => exact draws
          | some id => exact new id named
      | activates _ activates => exact activates.keeps

theorem ContextWorld.Chained.leads (chained : w.Chained host) (leads : w.tables.Leads t')
    {calls : List ContextCall}
    (each : ∀ x ∈ calls, x ∈ w.calls ∨ x.phase.Known host t' w.chain x.composition)
    (composed : List Composed) :
    ContextWorld.Chained host { w with tables := t', calls, composed } where
  holds thread := (chained.holds thread).of_same (leads.active thread) leads.keeps
  calls x listed := by
    rcases each x listed with old | new
    · exact (chained.calls x old).keeps leads.keeps fun _ _ listed => listed
    · exact new

theorem ContextWorld.Chained.keeps (chained : w.Chained host) (steady : w.Steady) (draws : w.Draws a)
    (new : w.NewSummary a) (stepped : w.Stepped host a w') : w'.Chained host := by
  have keeps := stepped.keepsSummaries steady draws new
  cases stepped with
  | pinned same later =>
      exact ⟨fun thread => (chained.holds thread).of_same rfl fun _ _ found => found,
        fun x listed => (chained.calls x listed).keeps (fun _ _ found => found) fun _ _ listed => listed⟩
  | idle => exact chained
  | begun begins =>
      obtain ⟨leads, -⟩ := (ContextHost.begin_wp steady.tables _).of_ok begins
      refine chained.leads leads (fun x listed => ?_) _
      rcases List.mem_append.mp listed with old | new
      · exact .inl old
      · rw [List.mem_singleton.mp new]
        exact .inr trivial
  | refused refuses =>
      have leads := (ContextHost.begin_wp steady.tables _).of_error refuses
      exact chained.leads leads (fun _ listed => .inl listed) _
  | done found does =>
      have leads := does.leads steady.tables.revised
      exact chained.leads leads (fun _ listed => .inl (List.mem_of_mem_eraseIdx listed)) _
  | raised raises =>
      exact chained.leads raises.leads (fun _ listed => .inl (List.mem_of_mem_eraseIdx listed)) _
  | goes found does =>
      have known := chained.calls _ (List.mem_of_getElem? found)
      cases does with
      | prepares phase prepares =>
          rw [extend_eq (by nofun)]
          refine chained.leads (prepares.quiet.leads steady.tables.revised) (fun y listed => ?_) _
          rcases List.mem_or_eq_of_mem_set listed with old | rfl
          · exact .inl old
          · exact .inr trivial
      | compacts phase planned large starts =>
          rw [extend_eq (by nofun)]
          refine chained.leads ((Quiet.refl _).leads steady.tables.revised) (fun y listed => ?_) _
          rcases List.mem_or_eq_of_mem_set listed with old | rfl
          · exact .inl old
          · exact .inr ⟨_, _, planned, large, starts⟩
      | @stores job answer made id s _ phase stores =>
          rw [phase] at known
          rw [extend_eq (by nofun)]
          refine ⟨fun thread => (chained.holds thread).of_same ?_ keeps, fun y listed => ?_⟩
          · show ContextTables.active _ thread = _
            rw [stores.tables]
            rfl
          · rcases List.mem_or_eq_of_mem_set listed with old | rfl
            · exact (chained.calls y old).keeps keeps fun _ _ listed => listed
            · refine ⟨Compaction.Made.keeps known keeps, s, ?_, stores.covered, stores.constraints⟩
              show (ContextTables.summaries _).get id = some s
              rw [stores.tables]
              exact (Records.get_put ..).trans (if_pos rfl)
      | activates phase activates =>
          have extended := extend_activate (w := w) phase
          refine ⟨chained.activates known phase activates, fun y listed => ?_⟩
          rcases List.mem_or_eq_of_mem_set listed with old | rfl
          · refine (chained.calls y old).keeps keeps fun thread a listed => ?_
            show a ∈ w.extend _ _ thread
            rw [extended, Function.update_apply]
            split
            · rename_i here
              exact List.mem_cons_of_mem _ (here ▸ listed)
            · exact listed
          · rw [phase] at known
            refine ⟨known.1.keeps keeps, known.2.keeps keeps, ?_⟩
            · show ∃ a ∈ w.extend _ _ _, _
              rw [extended, Function.update_self]
              exact ⟨_, List.mem_cons_self, rfl, rfl⟩

theorem ContextWorld.chained {C : ContextWorld → ContextAction → Prop} (new : ∀ w a, C w a → w.NewSummary a)
    (reachable : (contextRuns host C).Reachable w) : w.Chained host := by
  refine reachable.invariant (I := ContextWorld.Chained host) ?_ fun w a w' before chained step => ?_
  · rintro _ rfl
    exact ⟨fun _ => rfl, fun _ listed => absurd listed List.not_mem_nil⟩
  · have steady := ContextWorld.steady before
    exact chained.keeps steady step.1.1 (new w a step.1.2) (steady.stepped step.2)

end Chains

/-- In a run in which no summarising model names a stored summary, the active summary of a thread has the
hard constraints and the pins of every compaction of its chain. -/
theorem constraints_survive {w : ContextWorld}
    (reachable : (contextRuns host ContextWorld.NewSummary).Reachable w) (thread : ThreadKey) :
    (w.tables.active thread = none → w.chain thread = []) ∧
      ∀ id, w.tables.active thread = some id → ∃ s, w.tables.summaries.get id = some s ∧
        ∀ a ∈ w.chain thread, ∀ text ∈ a.constraints, text ∈ s.constraints := by
  have holds := (ContextWorld.chained (fun _ _ new => new) reachable).holds thread
  unfold ContextTables.Holds at holds
  constructor
  · intro none
    rw [none] at holds
    exact holds
  · intro id named
    rw [named] at holds
    exact holds

namespace Sample

def contextHost : ContextHost where
  strip := id
  lower := id
  newId _ := "new"
  artifactReader := none
  validateImage _ _ := .ok (1, 1)
  decode _ _ := none
  artifactWriter := none
  estimateTokens _ := 1
  dumpSummary _ := ""

def plainMessage (id : MessageRef) (role : MessageRole) : ContextMessage := { id, role, content := .text "" }

/-- A composition for a small window, which is always over its threshold. -/
def composeInput (thread : ThreadKey) (branch : BranchId) (messages : List ContextMessage) : ComposeInput where
  ctx := { thread, branch, inputRevision := 1, ownerId := "o", workspaceId := "w" }
  profileRef := "m@1"
  policy := { softThreshold := fun _ => 0, recentTurns := 1 }
  messages := messages

def twoTurns : List ContextMessage := [plainMessage "u1" .human, plainMessage "u2" .human]

def summaryAnswer (named : Option SummaryId) (constraints : List String) (fresh : SummaryId) : CallStep :=
  .answer (.ok { summaryId := named, goal := some "go on", constraints := some constraints })
    { summaryId := fresh }

/-- A text is pinned, and the first turn is summarised. -/
def pinnedRun : List ContextAction := [
  .pin 1 0 ⟨"p", "keep"⟩, .begin (composeInput 1 1 twoTurns), .call 0 .prepare, .call 0 .proceed,
  .call 0 (summaryAnswer none ["keep"] 0), .call 0 .activate, .call 0 .conclude]

/-- The state after a run whose steps meet a condition. -/
def contextRun (C : ContextWorld → ContextAction → Prop) [∀ w, DecidablePred (C w)]
    (actions : List ContextAction) : Option ContextWorld :=
  System.runsIf (ContextWorld.next contextHost) (fun w a => w.Draws a ∧ C w a) {} actions

theorem contextRun_reachable {C : ContextWorld → ContextAction → Prop} [∀ w, DecidablePred (C w)]
    {actions : List ContextAction} {w : ContextWorld} (h : contextRun C actions = some w) :
    (contextRuns contextHost C).Reachable w :=
  System.Reachable.runsIf (.init rfl) h

theorem pinned_kept : (contextRun ContextWorld.NewSummary pinnedRun).any
    (fun w => w.tables.active 1 = some 0 ∧
      (w.chain 1).map Activation.constraints = [["keep", "keep"]]) = true := by
  decide

end Sample

theorem constraints_survive_pinned : ∃ w s, Sample.contextRun ContextWorld.NewSummary Sample.pinnedRun = some w ∧
    w.tables.summaries.get 0 = some s ∧ "keep" ∈ s.constraints := by
  obtain ⟨w, ran, h⟩ := (Option.any_eq_true ..).mp Sample.pinned_kept
  obtain ⟨named, chain⟩ := of_decide_eq_true h
  obtain ⟨s, found, each⟩ := (constraints_survive (Sample.contextRun_reachable ran) 1).2 0 named
  refine ⟨w, s, ran, found, ?_⟩
  obtain ⟨a, listed, same⟩ := List.mem_map.mp (chain ▸ List.mem_singleton_self _ : ["keep", "keep"] ∈ _)
  exact each a listed "keep" (same ▸ List.mem_cons_self)

namespace Sample

/-- The summary of the first turn is stored, and then activated. -/
theorem pinned_activated : ((contextRun (fun _ _ => True) (pinnedRun.take 5)).any fun w =>
    (w.next contextHost (.call 0 .activate)).any fun w' =>
      w.tables.active 1 = none ∧ w'.tables.active 1 = some 0) = true := by
  decide

end Sample

theorem activation_current_pinned : ∃ w x, Sample.contextRun (fun _ _ => True) (Sample.pinnedRun.take 5) = some w ∧
    w.calls[0]? = some x ∧ w.tables.pinsOf x.composition.input.ctx.branch = x.composition.pins := by
  obtain ⟨w, ran, h⟩ := (Option.any_eq_true ..).mp Sample.pinned_activated
  obtain ⟨w', next, h⟩ := (Option.any_eq_true ..).mp h
  obtain ⟨before, after⟩ := of_decide_eq_true h
  have changed : w'.tables.active 1 ≠ w.tables.active 1 := by
    rw [before, after]
    exact Option.some_ne_none 0
  obtain ⟨i, x, _, _, same, found, -, -, -, -, -, pins⟩ :=
    (activation_current (Sample.contextRun_reachable ran)).1 _ w' next 1 changed
  cases same
  exact ⟨w, x, ran, found, pins⟩

end MiHarness

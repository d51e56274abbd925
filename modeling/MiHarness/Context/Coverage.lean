import Mathlib.Data.List.Nodup
import MiHarness.Context.Compaction

/-!
# What a view covers

Each message of a history is in the view that is composed of it, or in what its summary covers, images are
in the view, and tool calls stay with their results (`view_coverage`).  The induction is over runs: the
summary that a composition cites was made from what the same composition has left out.

A message can be in both.  `_compose` uses a summary only if all that it covers belongs to the history, but
`_compact` extends it also if it does not, and then turns that are kept may be covered.  Where the two agree,
no message without an image is in both (`view_once`).
-/

namespace MiHarness

open Library ContextTables

variable {host : ContextHost} {t t' : ContextTables} {c : Composition}

/-! ## Calls and results -/

/-- The ids of the tool calls of a message. -/
def ContextMessage.calls (m : ContextMessage) : List String := m.role.base.toolCalls.map ToolCall.identity

/-- The call that a message is the result of. -/
def ContextMessage.results (m : ContextMessage) : List String :=
  match m.role with
  | .tool toolCallId => [toolCallId]
  | _ => []

/-- Elements that share a value of a list without repetitions are the same. -/
theorem eq_of_shared {α β : Type} {l : List α} {f : α → List β} (distinct : (l.flatMap f).Nodup) {a b : α}
    {x : β} (ha : a ∈ l) (hb : b ∈ l) (xa : x ∈ f a) (xb : x ∈ f b) : a = b := by
  by_contra other
  have symmetric : Std.Symm (Function.onFun List.Disjoint f) := ⟨fun _ _ apart => List.Disjoint.symm apart⟩
  have apart := (List.nodup_flatMap.mp distinct).2.forall ha hb other
  exact apart xa xb

theorem resultIds_messages (messages : List ContextMessage) :
    resultIds (messages.map fun m => m.role.base) = messages.flatMap ContextMessage.results := by
  induction messages with
  | nil => rfl
  | cons m rest ih =>
      rw [List.map_cons, List.flatMap_cons, ← ih]
      unfold ContextMessage.results
      cases m.role with
      | human => rfl
      | system => rfl
      | ai => rfl
      | tool => rfl

theorem callIds_messages (messages : List ContextMessage) :
    callIds (messages.map fun m => m.role.base) = messages.flatMap ContextMessage.calls := by
  rw [callIds, List.flatMap_map]
  rfl

theorem resultIds_append (results : List ToolMessage) (rest : List BaseMessage) :
    resultIds (results.map .tool ++ rest) = results.map ToolMessage.toolCallId ++ resultIds rest := by
  induction results with
  | nil => rfl
  | cons m results ih =>
      rw [List.map_cons, List.cons_append, resultIds, ih]
      rfl

/-- Where no call is left without a result, the results are those of the calls. -/
theorem results_of_turns {messages : List BaseMessage} (turns : Turns false messages) :
    (resultIds messages).Perm (callIds messages) := by
  induction turns with
  | done => exact List.Perm.refl _
  | @plain message rest plain later ih =>
      have calls : callIds (message :: rest) = callIds rest := by
        cases message with
        | tool m => exact plain.elim
        | human => rfl
        | system => rfl
        | ai m =>
            have none : m.toolCalls = [] := plain
            rw [callIds, List.flatMap_cons, BaseMessage.toolCalls, none]
            rfl
      have results : resultIds (message :: rest) = resultIds rest := by
        cases message with
        | tool m => exact plain.elim
        | human => rfl
        | system => rfl
        | ai m => rfl
      rw [calls, results]
      exact ih
  | @answered m results rest _ answers _ ih =>
      rw [callIds_turn]
      show (resultIds (results.map .tool ++ rest)).Perm _
      rw [resultIds_append]
      exact answers.append ih
  | pending allowed => cases allowed

/-- What `validate_history` says of calls and results. -/
structure CallsPaired (messages : List ContextMessage) : Prop where
  calls : (messages.flatMap ContextMessage.calls).Nodup
  results : (messages.flatMap ContextMessage.results).Nodup
  same : ∀ id, id ∈ messages.flatMap ContextMessage.calls ↔ id ∈ messages.flatMap ContextMessage.results

theorem callsPaired {messages : List ContextMessage} (valid : validateMessages messages = .ok ()) :
    CallsPaired messages := by
  have accepted : ∃ pending, validateHistory (messages.map fun m => m.role.base) false = .ok pending := by
    unfold validateMessages at valid
    split at valid
    case h_1 pending accepted => exact ⟨pending, accepted⟩
    case h_2 => cases valid
  obtain ⟨pending, accepted⟩ := accepted
  obtain ⟨last, ran, accepted⟩ := bind_eq_ok.mp accepted
  obtain ⟨_, idle, -⟩ := bind_eq_ok.mp accepted
  have ends := require_eq_ok.mp idle
  have turns : Turns false _ := turns_of_run _ (Nat.le_refl _) ran ends
  have perm := results_of_turns turns
  have distinct := (Pairing.Read.of_run ran).distinct
  rw [resultIds_messages, callIds_messages] at perm
  rw [callIds_messages] at distinct
  exact ⟨distinct, perm.nodup_iff.mpr distinct, fun id => perm.mem_iff.symm⟩

/-- Of two histories that pass, one with messages of the other, the smaller has a turn with all its results. -/
theorem CallsPaired.together {messages view : List ContextMessage} (all : CallsPaired messages)
    (some : CallsPaired view) (within : ∀ m ∈ view, m ∈ messages) {a r : ContextMessage} {id : String}
    (ha : a ∈ messages) (hr : r ∈ messages) (call : id ∈ a.calls) (result : id ∈ r.results) :
    a ∈ view ↔ r ∈ view := by
  constructor
  · intro shown
    have answered := (some.same id).mp (List.mem_flatMap.mpr ⟨a, shown, call⟩)
    obtain ⟨r', shown', result'⟩ := List.mem_flatMap.mp answered
    cases eq_of_shared all.results hr (within r' shown') result result'
    exact shown'
  · intro shown
    have asked := (some.same id).mpr (List.mem_flatMap.mpr ⟨r, shown, result⟩)
    obtain ⟨a', shown', call'⟩ := List.mem_flatMap.mp asked
    cases eq_of_shared all.calls ha (within a' shown') call call'
    exact shown'

/-! ## Messages with their attachments -/

/-- What stays of a message when its attachments are resolved or its text is put into an artifact. -/
def ContextMessage.shape (m : ContextMessage) : MessageRef × MessageRole × Bool := (m.id, m.role, m.hasImage)

theorem ContextHost.attachment_image {input : ComposeInput} {part part' : ContextPart}
    {refs : List AttachmentRef} (h : host.attachment input part = .ok (part', refs)) :
    imageTypes.contains part'.type = imageTypes.contains part.type := by
  cases part with
  | block type data =>
      cases h
      rfl
  | reference type ref =>
      obtain ⟨_, -, h⟩ := bind_eq_ok.mp h
      obtain ⟨reader, -, h⟩ := bind_eq_ok.mp h
      dsimp only at h
      split at h
      case isTrue image =>
        obtain ⟨_, -, h⟩ := bind_eq_ok.mp h
        obtain ⟨_, -, h⟩ := bind_eq_ok.mp h
        obtain ⟨_, -, h⟩ := bind_eq_ok.mp h
        obtain ⟨raw, -, h⟩ := bind_eq_ok.mp h
        obtain ⟨_, -, h⟩ := bind_eq_ok.mp h
        obtain ⟨size, -, h⟩ := bind_eq_ok.mp h
        cases h
        rw [image]
        rfl
      case isFalse =>
        split at h
        case isTrue file =>
          obtain ⟨_, -, h⟩ := bind_eq_ok.mp h
          obtain ⟨raw, -, h⟩ := bind_eq_ok.mp h
          obtain ⟨text, -, h⟩ := bind_eq_ok.mp h
          cases h
          show imageTypes.contains "text" = imageTypes.contains type
          rw [file]
          decide
        case isFalse => cases h

theorem ContextHost.attachParts_image {input : ComposeInput} : ∀ {parts parts' : List ContextPart}
    {refs : List AttachmentRef}, host.attachParts input parts = .ok (parts', refs) →
      (parts'.any fun part => imageTypes.contains part.type) =
        parts.any fun part => imageTypes.contains part.type
  | [], _, _, h => by
      cases h
      rfl
  | part :: rest, _, _, h => by
      obtain ⟨⟨part', refs⟩, first, h⟩ := bind_eq_ok.mp h
      obtain ⟨⟨rest', later⟩, others, h⟩ := bind_eq_ok.mp h
      cases h
      rw [List.any_cons, List.any_cons, attachment_image first, attachParts_image others]

theorem ContextHost.attachments_shape {input : ComposeInput} {m m' : ContextMessage}
    {refs : List AttachmentRef} (h : host.attachments input m = .ok (m', refs)) : m'.shape = m.shape := by
  unfold attachments at h
  split at h
  case h_1 parts _ content =>
    obtain ⟨⟨parts', refs⟩, attached, h⟩ := bind_eq_ok.mp h
    cases h
    have image := attachParts_image attached
    unfold ContextMessage.shape ContextMessage.hasImage
    rw [content]
    exact congrArg (fun b => (m.id, m.role, b)) image
  case h_2 =>
    cases h
    rfl

theorem ContextHost.prepareMessage_shape (input : ComposeInput) (m : ContextMessage) :
    wp (host.prepareMessage input m) (fun r _ => r.1.shape = m.shape) (fun _ _ => True) t := by
  rw [ContextHost.prepareMessage]
  refine wp_raising_bind (fun _ _ => trivial) fun ⟨m', attached⟩ resolved => ?_
  have same := attachments_shape resolved
  dsimp only
  split
  case h_1 text _ content =>
    split
    case isTrue =>
      rw [wp_bind, ContextHost.offload]
      refine wp_raising_bind (fun _ _ => trivial) fun writer _ => ?_
      rw [wp_bind, wp_get]
      refine wp_raising_bind (fun _ _ => trivial) fun artifact _ => ?_
      rw [wp_bind, wp_modify, wp_pure]
      show ContextMessage.shape _ = m.shape
      rw [← same]
      unfold ContextMessage.shape ContextMessage.hasImage
      rw [content]
    case isFalse => exact same
  case h_2 => exact same

theorem ContextHost.prepareMessages_shape (input : ComposeInput) : ∀ (messages : List ContextMessage)
    {t : ContextTables}, wp (host.prepareMessages input messages)
      (fun r _ => r.1.map ContextMessage.shape = messages.map ContextMessage.shape) (fun _ _ => True) t
  | [], _ => rfl
  | m :: rest, _ => by
      rw [ContextHost.prepareMessages, wp_bind]
      refine (prepareMessage_shape input m).mono (fun ⟨m', refs⟩ u same => ?_) fun _ _ _ => trivial
      rw [wp_bind]
      refine (prepareMessages_shape input rest).mono (fun ⟨rest', later⟩ u others => ?_) fun _ _ _ => trivial
      rw [wp_pure]
      show List.map _ (m' :: rest') = _
      rw [List.map_cons, List.map_cons, others]
      exact congrArg (· :: _) same

/-! ## What is shown and what is covered -/

/-- A part of the messages is shown, the others have their ids in a list, and images are shown. -/
structure Shows (messages view : List ContextMessage) (covered : List MessageRef) : Prop where
  within : view.Sublist messages
  covered : ∀ m ∈ messages, m ∈ view ∨ m.id ∈ covered
  images : ∀ m ∈ messages, m.hasImage = true → m ∈ view

theorem Shows.all (messages : List ContextMessage) (covered : List MessageRef) :
    Shows messages messages covered :=
  ⟨List.Sublist.refl _, fun _ listed => .inl listed, fun _ listed _ => listed⟩

theorem CompactionSummary.mem_leaves {s : CompactionSummary} {messages : List ContextMessage}
    {m : ContextMessage} : m ∈ s.leaves messages ↔
      m ∈ messages ∧ (m.id ∉ s.coveredMessageRefs ∨ m.hasImage = true) := by
  rw [leaves, List.mem_filter, decide_eq_true_iff]

theorem CompactionSummary.shows (s : CompactionSummary) (messages : List ContextMessage) :
    Shows messages (s.leaves messages) s.coveredMessageRefs where
  within := List.filter_sublist
  covered m listed := by
    by_cases covered : m.id ∈ s.coveredMessageRefs
    · exact .inr covered
    · exact .inl (mem_leaves.mpr ⟨listed, .inl covered⟩)
  images m listed image := mem_leaves.mpr ⟨listed, .inr image⟩

/-- What a compaction shows of messages: the images of those before a place, and the others after it. -/
theorem Shows.compact {messages view : List ContextMessage} {covered covered' : List MessageRef}
    (shows : Shows messages view covered) (n : Nat) (old : ∀ ref ∈ covered, ref ∈ covered')
    (new : ∀ m ∈ view.take n, m.id ∈ covered') :
    Shows messages ((view.take n).filter ContextMessage.hasImage ++ view.drop n) covered' := by
  have split : ∀ m ∈ view, m ∈ view.take n ∨ m ∈ view.drop n := fun m listed =>
    List.mem_append.mp ((List.take_append_drop n view).symm ▸ listed)
  refine ⟨?_, fun m listed => ?_, fun m listed image => ?_⟩
  · have part := (List.filter_sublist (p := ContextMessage.hasImage) (l := view.take n)).append
      (List.Sublist.refl (view.drop n))
    rw [List.take_append_drop] at part
    exact part.trans shows.within
  · rcases shows.covered m listed with shown | hidden
    · rcases split m shown with before | after
      · exact .inr (new m before)
      · exact .inl (List.mem_append_right _ after)
    · exact .inr (old _ hidden)
  · rcases split m (shows.images m listed image) with before | after
    · exact List.mem_append_left _ (List.mem_filter.mpr ⟨before, image⟩)
    · exact List.mem_append_right _ after

/-- The plan of a composition: everything, or what an active summary leaves that belongs to the history. -/
theorem Composition.plan_eq_ok {plan : ContextPlan} (h : c.plan host t = .ok plan) :
    (plan.working = c.working ∧ plan.summary = none ∧
        ∀ s, c.pointer.summaryIn t = .ok (some s) → ¬s.Belongs c.history) ∨
      ∃ s, c.pointer.summaryIn t = .ok (some s) ∧ s.Belongs c.history ∧ plan.working = s.leaves c.working ∧
        plan.summary = some s ∧ plan.summaryRefs = [s.summaryId] := by
  obtain ⟨summary, read, h⟩ := bind_eq_ok.mp h
  split at h
  case h_1 s =>
    split at h
    case isTrue belongs =>
      cases h
      exact .inr ⟨s, read, belongs, rfl, rfl, rfl⟩
    case isFalse foreign =>
      cases h
      refine .inl ⟨rfl, rfl, fun s' read' => ?_⟩
      cases read.symm.trans read'
      exact foreign
  case h_2 =>
    cases h
    refine .inl ⟨rfl, rfl, fun s' read' => ?_⟩
    cases read.symm.trans read'

/-- What the active summary covers and the plan shows is an image. -/
theorem Composition.plan_shows {plan : ContextPlan} {previous : Option CompactionSummary}
    (planned : c.plan host t = .ok plan) (read : c.pointer.summaryIn t = .ok previous) :
    Shows c.working plan.working (previous.elim [] CompactionSummary.coveredMessageRefs) := by
  rcases plan_eq_ok planned with ⟨all, -, -⟩ | ⟨s, read', -, left, -, -⟩
  · rw [all]
    exact Shows.all ..
  · cases read.symm.trans read'
    rw [left]
    exact s.shows c.working

/-! ## Views -/

/-- What is known of a view. -/
structure Composed.Covers (host : ContextHost) (v : Composed) : Prop where
  /-- Each message is in the view or covered. -/
  covered : ∀ m ∈ v.history, m.id ∈ v.view.messageRefs ∨
    ∃ s, v.summary = some s ∧ m.id ∈ s.coveredMessageRefs
  images : ∀ m ∈ v.history, m.hasImage = true → m.id ∈ v.view.messageRefs
  /-- The messages have the order that they have in the history. -/
  order : v.view.messageRefs.Sublist (v.history.map ContextMessage.id)
  /-- A call is in the view if and only if its result is. -/
  together : ∀ a ∈ v.history, ∀ r ∈ v.history, ∀ id ∈ a.calls, id ∈ r.results →
    (a.id ∈ v.view.messageRefs ↔ r.id ∈ v.view.messageRefs)
  request : v.request.messages.map ContextMessage.id = v.view.messageRefs
  size : v.view.estimate = host.estimateTokens v.request ∧
    (v.view.estimate : Int) ≤ v.view.budget.inputBudget

/-- The summary of a view is the one that the thread named when the composition began, or the one that a
compaction put in the place of the pointer there was. -/
def Composed.Cites (chain : ThreadKey → List Activation) (v : Composed) : Prop :=
  ∀ s, v.summary = some s → s.summaryId ∈ v.view.summaryRefs ∧
    (v.begun.summaryRef = some s.summaryId ∨
      ∃ a ∈ chain v.thread, a.summaryId = s.summaryId ∧ a.replaced = v.begun)

/-- No message without an image is both in the view and covered. -/
def Composed.Once (v : Composed) : Prop :=
  ∀ m ∈ v.history, m.hasImage = false → m.id ∈ v.view.messageRefs →
    ∀ s, v.summary = some s → m.id ∉ s.coveredMessageRefs

/-- The messages of a composition: those of its history, which passes and has distinct ids. -/
structure Composition.Aligned (c : Composition) : Prop where
  distinct : (c.history.map ContextMessage.id).Nodup
  valid : validateMessages c.history = .ok ()
  shapes : c.working.map ContextMessage.shape = c.history.map ContextMessage.shape

section Aligned

variable {plan : ContextPlan} {pointer : ContextPointer} {v : Composed}

theorem mem_of_shapes {messages messages' : List ContextMessage}
    (shapes : messages'.map ContextMessage.shape = messages.map ContextMessage.shape) {m : ContextMessage}
    (listed : m ∈ messages) : ∃ m' ∈ messages', m'.shape = m.shape :=
  List.mem_map.mp (shapes ▸ List.mem_map_of_mem listed)

theorem ids_of_shapes {messages messages' : List ContextMessage}
    (shapes : messages'.map ContextMessage.shape = messages.map ContextMessage.shape) :
    messages'.map ContextMessage.id = messages.map ContextMessage.id := by
  have ids := congrArg (List.map Prod.fst) shapes
  rwa [List.map_map, List.map_map] at ids

theorem validate_of_shapes {messages messages' : List ContextMessage}
    (shapes : messages'.map ContextMessage.shape = messages.map ContextMessage.shape) :
    validateMessages messages' = validateMessages messages := by
  have roles := congrArg (List.map fun e => e.2.1.base) shapes
  rw [List.map_map, List.map_map] at roles
  unfold validateMessages
  rw [show (messages'.map fun m => m.role.base) = messages.map fun m => m.role.base from roles]

theorem Composition.finish_eq_ok (h : c.finish host plan pointer = .ok v) :
    v.thread = c.input.ctx.thread ∧ v.history = c.history ∧ v.begun = c.pointer ∧ v.summary = plan.summary ∧
      v.view.summaryRefs = plan.summaryRefs ∧ v.request.messages = plan.working ∧
      v.view.messageRefs = plan.working.map ContextMessage.id ∧
      v.view.estimate = host.estimateTokens v.request ∧ (v.view.estimate : Int) ≤ v.view.budget.inputBudget ∧
      validateMessages plan.working = .ok () := by
  obtain ⟨_, fits, h⟩ := bind_eq_ok.mp h
  obtain ⟨_, valid, h⟩ := bind_eq_ok.mp h
  cases h
  exact ⟨rfl, rfl, rfl, rfl, rfl, rfl, rfl, rfl, require_eq_ok.mp fits, valid⟩

/-- A message with the id of one that is shown is shown. -/
theorem Composition.Aligned.mem_view (aligned : c.Aligned) {view : List ContextMessage}
    (within : view.Sublist c.working) {m : ContextMessage} (listed : m ∈ c.working) :
    m.id ∈ view.map ContextMessage.id ↔ m ∈ view := by
  refine ⟨fun shown => ?_, List.mem_map_of_mem⟩
  obtain ⟨m', shown, same⟩ := List.mem_map.mp shown
  have distinct := aligned.distinct
  rw [← ids_of_shapes aligned.shapes] at distinct
  cases List.inj_on_of_nodup_map distinct (within.subset shown) listed same
  exact shown

/-- A view of what a plan shows. -/
theorem Composition.Aligned.covers (aligned : c.Aligned)
    (shows : Shows c.working plan.working (plan.summary.elim [] CompactionSummary.coveredMessageRefs))
    (finished : c.finish host plan pointer = .ok v) : v.Covers host := by
  obtain ⟨-, history, -, summary, -, messages, refs, estimate, fits, valid⟩ := finish_eq_ok finished
  have mem {m m' : ContextMessage} (listed : m' ∈ c.working) (same : m'.shape = m.shape) :
      m.id ∈ v.view.messageRefs ↔ m' ∈ plan.working := by
    have ids : m'.id = m.id := congrArg Prod.fst same
    rw [refs, ← ids]
    exact aligned.mem_view shows.within listed
  refine ⟨fun m listed => ?_, fun m listed image => ?_, ?_, fun a ha r hr id call result => ?_, ?_, estimate, fits⟩
  · obtain ⟨m', listed', same⟩ := mem_of_shapes aligned.shapes (history ▸ listed)
    rcases shows.covered m' listed' with shown | hidden
    · exact .inl ((mem listed' same).mpr shown)
    · right
      rw [summary]
      cases named : plan.summary with
      | none =>
          rw [named] at hidden
          exact absurd hidden List.not_mem_nil
      | some s =>
          rw [named] at hidden
          have ids : m'.id = m.id := congrArg Prod.fst same
          exact ⟨s, rfl, ids ▸ hidden⟩
  · obtain ⟨m', listed', same⟩ := mem_of_shapes aligned.shapes (history ▸ listed)
    have image' : m'.hasImage = true := (congrArg (fun e => e.2.2) same).trans image
    exact (mem listed' same).mpr (shows.images m' listed' image')
  · rw [refs, history, ← ids_of_shapes aligned.shapes]
    exact shows.within.map _
  · obtain ⟨a', ha', sameA⟩ := mem_of_shapes aligned.shapes (history ▸ ha)
    obtain ⟨r', hr', sameR⟩ := mem_of_shapes aligned.shapes (history ▸ hr)
    have roleA : a'.role = a.role := congrArg (fun e => e.2.1) sameA
    have roleR : r'.role = r.role := congrArg (fun e => e.2.1) sameR
    have paired := callsPaired ((validate_of_shapes aligned.shapes).trans aligned.valid)
    have call' : id ∈ a'.calls := by rwa [ContextMessage.calls, roleA]
    have result' : id ∈ r'.results := by rwa [ContextMessage.results, roleR]
    rw [mem ha' sameA, mem hr' sameR]
    exact paired.together (callsPaired valid) (fun m shown => shows.within.subset shown) ha' hr' call' result'
  · rw [messages, refs]

/-- What a compaction leaves of the messages of its composition. -/
theorem Compaction.Made.shows {job : Compaction} {id : SummaryId} {s : CompactionSummary}
    (made : job.Made host t c) (covered : s.coveredMessageRefs = job.candidateRefs) :
    Shows c.working (c.compacted host job id s).working s.coveredMessageRefs := by
  obtain ⟨plan, previous, planned, -, starts⟩ := made
  have shows := Composition.plan_shows planned starts.summary
  have compacted := @Shows.compact _ _ _ s.coveredMessageRefs shows
    (turnBoundary c.input.policy.recentTurns plan.working)
    (fun ref old => covered ▸ (starts.covers ref).mpr (.inl old))
    fun m new => covered ▸ (starts.covers m.id).mpr (.inr (List.mem_map_of_mem new))
  show Shows c.working (job.candidates.filter ContextMessage.hasImage ++ job.kept) _
  rw [starts.candidates, starts.kept]
  exact compacted

end Aligned

/-! ## Runs -/

/-- The messages of a history have distinct ids. -/
def ContextAction.Distinct (host : ContextHost) : ContextAction → Prop
  | .begin input => ((host.identify input.messages).map ContextMessage.id).Nodup
  | _ => True

instance : DecidablePred (ContextAction.Distinct host) := fun
  | .begin input => inferInstanceAs (Decidable (((host.identify input.messages).map ContextMessage.id).Nodup))
  | .call .. | .pin .. | .fork .. => .isTrue trivial

/-- What is known of the messages of a composition in its phase. -/
def ContextCall.Aligned (x : ContextCall) : Prop :=
  match x.phase with
  | .begun => (x.composition.history.map ContextMessage.id).Nodup ∧
      validateMessages x.composition.history = .ok ()
  | _ => x.composition.Aligned

structure ContextWorld.Viewed (host : ContextHost) (w : ContextWorld) : Prop where
  calls : ∀ x ∈ w.calls, x.Aligned
  composed : ∀ v ∈ w.composed, v.Covers host ∧ v.Cites w.chain

section Runs

variable {w w' : ContextWorld} {a : ContextAction} {x : ContextCall} {step : CallStep}

theorem ContextHost.begin_history (input : ComposeInput) :
    wp (host.begin input) (fun c _ => c.history = host.identify input.messages ∧
      validateMessages c.history = .ok ()) (fun _ _ => True) t := by
  rw [ContextHost.begin, wp_bind]
  refine (archiveMessages_quiet _ t).mono (fun _ u _ => ?_) fun _ _ _ => trivial
  refine wp_raising_bind (fun _ _ => trivial) fun _ valid => ?_
  rw [wp_bind]
  unfold wp
  split
  case h_2 => trivial
  case h_1 p u' _ =>
    refine wp_raising_bind (fun _ _ => trivial) fun budget _ => ?_
    rw [wp_bind, wp_get]
    refine wp_raising_bind (fun _ _ => trivial) fun memories _ => ?_
    exact ⟨rfl, valid⟩

theorem ContextCall.Does.aligned {phase : CallPhase} (does : x.Does host t step (.goes phase c) t')
    (aligned : x.Aligned) : ContextCall.Aligned ⟨c, phase⟩ := by
  unfold ContextCall.Aligned at aligned
  cases does with
  | prepares here prepares =>
      rw [here] at aligned
      have shapes := (ContextHost.prepareMessages_shape _ _).of_ok prepares.messages
      show c.Aligned
      rw [prepares.rest]
      exact ⟨aligned.1, aligned.2, shapes⟩
  | compacts here =>
      rw [here] at aligned
      exact aligned
  | stores here =>
      rw [here] at aligned
      exact aligned
  | activates here =>
      rw [here] at aligned
      exact aligned

/-- The view that ends a composition. -/
theorem ContextCall.Does.viewed {v : Composed} (does : x.Does host t step (.done v) t') (sound : t.Sound)
    (aligned : x.Aligned) {chain : ThreadKey → List Activation}
    (known : x.phase.Known host t chain x.composition) : v.Covers host ∧ v.Cites chain := by
  unfold ContextCall.Aligned at aligned
  cases does with
  | ends here planned _ finished =>
      rw [here] at aligned
      obtain ⟨-, -, begun, summary, refs, -⟩ := Composition.finish_eq_ok finished
      rcases Composition.plan_eq_ok planned with ⟨all, none, -⟩ | ⟨s, read, -, left, named, cited⟩
      · refine ⟨Composition.Aligned.covers aligned ?_ finished, fun s' shown => ?_⟩
        · rw [all]
          exact Shows.all ..
        · cases (none.symm.trans summary.symm).trans shown
      · refine ⟨Composition.Aligned.covers aligned ?_ finished, fun s' shown => ?_⟩
        · rw [left, named]
          exact s.shows _
        · cases (named.symm.trans summary.symm).trans shown
          rcases ContextPointer.summaryIn_eq_ok read with ⟨-, absent⟩ | ⟨id, s', active, found, same⟩
          · cases absent
          · cases same
            rw [refs, cited, begun, sound.keyed id s found]
            exact ⟨List.mem_singleton_self _, .inl active⟩
  | @concludes job id s pointer _ _ here _ found finished =>
      rw [here] at aligned known
      obtain ⟨made, ⟨s', found', covered, -⟩, a, listed, named, replaced⟩ := known
      cases found.symm.trans found'
      obtain ⟨thread, -, begun, summary, refs, -⟩ := Composition.finish_eq_ok finished
      refine ⟨Composition.Aligned.covers aligned (made.shows covered) finished, fun s' shown => ?_⟩
      cases summary.symm.trans shown
      rw [refs, begun, thread, sound.keyed id s found]
      exact ⟨List.mem_append_right _ (List.mem_singleton_self _), .inr ⟨a, listed, named, replaced⟩⟩

theorem Composed.Cites.longer {v : Composed} {chain chain' : ThreadKey → List Activation}
    (cites : v.Cites chain) (longer : ∀ thread a, a ∈ chain thread → a ∈ chain' thread) :
    v.Cites chain' := by
  intro s shown
  obtain ⟨cited, active | ⟨a, listed, rest⟩⟩ := cites s shown
  · exact ⟨cited, .inl active⟩
  · exact ⟨cited, .inr ⟨a, longer _ a listed, rest⟩⟩

theorem ContextWorld.extend_longer (thread : ThreadKey) (a : Activation) (listed : a ∈ w.chain thread) :
    a ∈ w.extend x step thread := by
  unfold extend
  cases x.phase with
  | stored job id =>
      cases step with
      | activate =>
          dsimp only
          rw [Function.update_apply]
          split
          · rename_i here
            exact List.mem_cons_of_mem _ (here ▸ listed)
          · exact listed
      | prepare | proceed | answer | conclude => exact listed
  | begun | prepared | generating | activated => exact listed

theorem ContextWorld.Viewed.keeps (viewed : w.Viewed host) (steady : w.Steady) (chained : w.Chained host)
    (distinct : a.Distinct host) (stepped : w.Stepped host a w') : w'.Viewed host := by
  cases stepped with
  | pinned => exact ⟨viewed.calls, viewed.composed⟩
  | idle => exact viewed
  | begun begins =>
      obtain ⟨history, valid⟩ := (ContextHost.begin_history _).of_ok begins
      refine ⟨fun x listed => ?_, viewed.composed⟩
      rcases List.mem_append.mp listed with old | new
      · exact viewed.calls x old
      · rw [List.mem_singleton.mp new]
        refine ⟨?_, valid⟩
        rw [history]
        exact distinct
  | refused => exact ⟨viewed.calls, viewed.composed⟩
  | goes found does =>
      refine ⟨fun y listed => ?_, fun v listed => ?_⟩
      · rcases List.mem_or_eq_of_mem_set listed with old | rfl
        · exact viewed.calls y old
        · exact does.aligned (viewed.calls _ (List.mem_of_getElem? found))
      · obtain ⟨covers, cites⟩ := viewed.composed v listed
        exact ⟨covers, cites.longer extend_longer⟩
  | done found does =>
      have here := List.mem_of_getElem? found
      refine ⟨fun y listed => viewed.calls y (List.mem_of_mem_eraseIdx listed), fun v listed => ?_⟩
      rcases List.mem_cons.mp listed with rfl | old
      · exact does.viewed steady.tables (viewed.calls _ here) (chained.calls _ here)
      · exact viewed.composed v old
  | raised => exact ⟨fun y listed => viewed.calls y (List.mem_of_mem_eraseIdx listed), viewed.composed⟩

/-- Histories have distinct ids, and a summarising model names no stored summary. -/
def ContextWorld.Plain (host : ContextHost) (w : ContextWorld) (a : ContextAction) : Prop :=
  a.Distinct host ∧ w.NewSummary a

instance (w : ContextWorld) : DecidablePred (w.Plain host) := fun _ => inferInstanceAs (Decidable (_ ∧ _))

theorem ContextWorld.viewed {C : ContextWorld → ContextAction → Prop} (plain : ∀ w a, C w a → w.Plain host a)
    (reachable : (contextRuns host C).Reachable w) : w.Viewed host := by
  refine reachable.invariant (I := ContextWorld.Viewed host) ?_ fun w a w' before viewed step => ?_
  · rintro _ rfl
    exact ⟨fun _ listed => absurd listed List.not_mem_nil, fun _ listed => absurd listed List.not_mem_nil⟩
  · have steady := ContextWorld.steady before
    have chained := ContextWorld.chained (fun w a h => (plain w a h).2) before
    exact viewed.keeps steady chained (plain w a step.1.2).1 (steady.stepped step.2)

end Runs

/-- In a run whose histories have distinct ids, and in which no summarising model names a stored summary, a
view that is composed shows or covers every message of its history. -/
theorem view_coverage {w : ContextWorld}
    (reachable : (contextRuns host (ContextWorld.Plain host)).Reachable w) :
    ∀ v ∈ w.composed, v.Covers host ∧ v.Cites w.chain :=
  (ContextWorld.viewed (fun _ _ plain => plain) reachable).composed

/-! ## Messages that are shown and covered -/

/-- The active summary covers nothing outside the history, or nothing of the turns that are kept. -/
def Composition.ApartAt (c : Composition) :
    Except ContextFault ContextPlan → Except ContextFault (Option CompactionSummary) → Prop
  | .ok plan, .ok (some s) => s.Belongs c.history ∨
      ∀ m ∈ c.kept plan.working, m.hasImage = true ∨ m.id ∉ s.coveredMessageRefs
  | _, _ => True

instance (c : Composition) : ∀ plan summary, Decidable (c.ApartAt plan summary)
  | .ok _, .ok (some _) => inferInstanceAs (Decidable (_ ∨ ∀ m ∈ _, _ ∨ _))
  | .ok _, .ok none => .isTrue trivial
  | .ok _, .error _ => .isTrue trivial
  | .error _, _ => .isTrue trivial

def Composition.Apart (host : ContextHost) (t : ContextTables) (c : Composition) : Prop :=
  c.ApartAt (c.plan host t) (c.pointer.summaryIn t)

instance (c : Composition) : Decidable (c.Apart host t) := inferInstanceAs (Decidable (c.ApartAt _ _))

/-- A compaction is made only where the summary that it extends is apart from what is kept. -/
def ContextWorld.Apart (host : ContextHost) (w : ContextWorld) : ContextAction → Prop
  | .call i .proceed => ∀ x ∈ w.calls[i]?, x.composition.Apart host w.tables
  | _ => True

instance (w : ContextWorld) : DecidablePred (w.Apart host) := fun
  | .call i .proceed => inferInstanceAs (Decidable (∀ x ∈ w.calls[i]?, x.composition.Apart host w.tables))
  | .call _ .prepare | .call _ (.answer ..) | .call _ .activate | .call _ .conclude
  | .pin .. | .fork .. | .begin _ => .isTrue trivial

def CallPhase.Apart (host : ContextHost) (t : ContextTables) (c : Composition) : CallPhase → Prop
  | .begun => True
  | .prepared => True
  | .generating _ => c.Apart host t
  | .stored _ _ => c.Apart host t
  | .activated _ _ => c.Apart host t

structure ContextWorld.Separate (host : ContextHost) (w : ContextWorld) : Prop where
  calls : ∀ x ∈ w.calls, x.phase.Apart host w.tables x.composition
  composed : ∀ v ∈ w.composed, v.Once

section Once

variable {w w' : ContextWorld} {a : ContextAction} {x : ContextCall} {step : CallStep}

/-- A compaction keeps being apart, as what it was made from stays. -/
theorem CallPhase.Apart.keeps {phase : CallPhase} {chain : ThreadKey → List Activation}
    (apart : phase.Apart host t c) (known : phase.Known host t chain c) (keeps : t.KeepsSummaries t') :
    phase.Apart host t' c := by
  have made {job : Compaction} (made : job.Made host t c) (apart : c.Apart host t) : c.Apart host t' := by
    obtain ⟨plan, previous, planned, -, starts⟩ := made
    unfold Composition.Apart at apart ⊢
    rwa [Composition.plan_keeps planned keeps, ContextPointer.summaryIn_keeps starts.summary keeps,
      ← planned, ← starts.summary]
  cases phase with
  | begun => trivial
  | prepared => trivial
  | generating job => exact made known apart
  | stored job id => exact made known.1 apart
  | activated job id => exact made known.1 apart

/-- A view is apart from what is covered if its messages are. -/
theorem Composition.Aligned.once (aligned : c.Aligned) {plan : ContextPlan} {pointer : ContextPointer}
    {v : Composed} (within : plan.working.Sublist c.working)
    (apart : ∀ m ∈ plan.working, m.hasImage = false → ∀ s, plan.summary = some s →
      m.id ∉ s.coveredMessageRefs)
    (finished : c.finish host plan pointer = .ok v) : v.Once := by
  obtain ⟨-, history, -, summary, -, -, refs, -⟩ := finish_eq_ok finished
  intro m listed plain shown s named
  obtain ⟨m', listed', same⟩ := mem_of_shapes aligned.shapes (history ▸ listed)
  have ids : m'.id = m.id := congrArg Prod.fst same
  have plain' : m'.hasImage = false := (congrArg (fun e => e.2.2) same).trans plain
  rw [refs, ← ids] at shown
  rw [← ids]
  exact apart m' ((aligned.mem_view within listed').mp shown) plain' s (summary ▸ named)

/-- What a compaction shows is an image or not covered. -/
theorem Compaction.Made.apart {job : Compaction} {id : SummaryId} {s : CompactionSummary}
    (made : job.Made host t c) (covered : s.coveredMessageRefs = job.candidateRefs) (aligned : c.Aligned)
    (apart : c.Apart host t) {m : ContextMessage} (shown : m ∈ (c.compacted host job id s).working)
    (plain : m.hasImage = false) : m.id ∉ s.coveredMessageRefs := by
  obtain ⟨plan, previous, planned, -, starts⟩ := made
  have within := (Composition.plan_shows planned starts.summary).within
  have kept : m ∈ c.kept plan.working := by
    rcases List.mem_append.mp shown with image | kept
    · cases plain.symm.trans (List.mem_filter.mp image).2
    · exact starts.kept ▸ kept
  rw [covered]
  intro both
  rcases (starts.covers m.id).mp both with old | new
  · -- The summary before belongs to the history and has left the message, or it is apart.
    cases previous with
    | none => exact absurd old List.not_mem_nil
    | some s₀ =>
        unfold Composition.Apart at apart
        rw [planned, starts.summary] at apart
        have left : m ∈ plan.working := List.mem_of_mem_drop kept
        rcases apart with belongs | separate
        · rcases Composition.plan_eq_ok planned with ⟨-, -, foreign⟩ | ⟨s', read, -, leaves, -, -⟩
          · exact foreign s₀ starts.summary belongs
          · cases starts.summary.symm.trans read
            rw [leaves] at left
            rcases (CompactionSummary.mem_leaves.mp left).2 with free | image
            · exact free old
            · cases plain.symm.trans image
        · rcases separate m kept with image | free
          · cases plain.symm.trans image
          · exact free old
  · have distinct := aligned.distinct
    rw [← ids_of_shapes aligned.shapes] at distinct
    have parts := (within.map ContextMessage.id).nodup distinct
    rw [← List.take_append_drop (turnBoundary c.input.policy.recentTurns plan.working) plan.working,
      List.map_append] at parts
    exact List.disjoint_of_nodup_append parts new (List.mem_map_of_mem kept)

theorem ContextCall.Does.once {v : Composed} (does : x.Does host t step (.done v) t') (aligned : x.Aligned)
    {chain : ThreadKey → List Activation} (known : x.phase.Known host t chain x.composition)
    (apart : x.phase.Apart host t x.composition) : v.Once := by
  unfold ContextCall.Aligned at aligned
  cases does with
  | ends here planned _ finished =>
      rw [here] at aligned
      rcases Composition.plan_eq_ok planned with ⟨all, none, -⟩ | ⟨s, -, -, left, named, -⟩
      · refine Composition.Aligned.once aligned (all ▸ List.Sublist.refl _) (fun m _ _ s shown => ?_) finished
        cases none.symm.trans shown
      · refine Composition.Aligned.once aligned (left ▸ List.filter_sublist) (fun m listed plain s' shown => ?_)
          finished
        cases named.symm.trans shown
        rw [left] at listed
        rcases (CompactionSummary.mem_leaves.mp listed).2 with free | image
        · exact free
        · cases plain.symm.trans image
  | concludes here _ found finished =>
      rw [here] at aligned known apart
      obtain ⟨made, ⟨s', found', covered, -⟩, -⟩ := known
      cases found.symm.trans found'
      refine Composition.Aligned.once aligned (made.shows covered).within (fun m shown plain s'' named => ?_)
        finished
      cases named
      exact made.apart covered aligned apart shown plain

theorem ContextWorld.Separate.keeps (separate : w.Separate host) (steady : w.Steady)
    (chained : w.Chained host) (viewed : w.Viewed host) (draws : w.Draws a) (plain : w.Plain host a)
    (apart : w.Apart host a) (stepped : w.Stepped host a w') : w'.Separate host := by
  have keeps := stepped.keepsSummaries steady draws plain.2
  have old : ∀ y ∈ w.calls, y.phase.Apart host w'.tables y.composition := fun y listed =>
    (separate.calls y listed).keeps (chained.calls y listed) keeps
  cases stepped with
  | pinned => exact ⟨old, separate.composed⟩
  | idle => exact separate
  | begun =>
      refine ⟨fun y listed => ?_, separate.composed⟩
      rcases List.mem_append.mp listed with before | new
      · exact old y before
      · rw [List.mem_singleton.mp new]
        trivial
  | refused => exact ⟨old, separate.composed⟩
  | raised => exact ⟨fun y listed => old y (List.mem_of_mem_eraseIdx listed), separate.composed⟩
  | done found does =>
      have here := List.mem_of_getElem? found
      refine ⟨fun y listed => old y (List.mem_of_mem_eraseIdx listed), fun v listed => ?_⟩
      rcases List.mem_cons.mp listed with rfl | before
      · exact does.once (viewed.calls _ here) (chained.calls _ here) (separate.calls _ here)
      · exact separate.composed v before
  | goes found does =>
      refine ⟨fun y listed => ?_, separate.composed⟩
      rcases List.mem_or_eq_of_mem_set listed with before | rfl
      · exact old y before
      · have here := List.mem_of_getElem? found
        have now := old _ here
        cases does with
        | prepares => trivial
        | compacts =>
            have here := apart _ found
            exact here
        | stores phase =>
            rw [phase] at now
            exact now
        | activates phase =>
            rw [phase] at now
            exact now

end Once

/-- If a compaction is moreover made only where the summary that it extends is apart from the turns that are
kept, then no message without an image is both shown and covered. -/
theorem view_once {w : ContextWorld}
    (reachable : (contextRuns host fun w a => w.Plain host a ∧ w.Apart host a).Reachable w) :
    ∀ v ∈ w.composed, v.Once := by
  have separate : w.Separate host := by
    refine reachable.invariant (I := ContextWorld.Separate host) ?_ fun w a w' before separate step => ?_
    · rintro _ rfl
      exact ⟨fun _ listed => absurd listed List.not_mem_nil, fun _ listed => absurd listed List.not_mem_nil⟩
    · have steady := ContextWorld.steady before
      have chained := ContextWorld.chained (fun w a h => h.1.2) before
      have viewed := ContextWorld.viewed (fun w a h => h.1) before
      obtain ⟨⟨draws, plain, apart⟩, next⟩ := step
      exact separate.keeps steady chained viewed draws plain apart (steady.stepped next)
  exact separate.composed

namespace Sample

theorem pinned_composed : (contextRun (ContextWorld.Plain contextHost) pinnedRun).any
    (fun w => w.composed.map (fun v => v.view.messageRefs) = [["u2"]]) = true := by
  decide

theorem pinned_apart : (contextRun
    (fun w a => w.Plain contextHost a ∧ w.Apart contextHost a) pinnedRun).any
    (fun w => w.composed.map (fun v => v.view.messageRefs) = [["u2"]]) = true := by
  decide

end Sample

theorem view_coverage_pinned : ∃ w v, Sample.contextRun (ContextWorld.Plain Sample.contextHost)
    Sample.pinnedRun = some w ∧ v ∈ w.composed ∧ v.view.messageRefs = ["u2"] ∧
    v.Covers Sample.contextHost ∧ v.Cites w.chain := by
  obtain ⟨w, ran, h⟩ := (Option.any_eq_true ..).mp Sample.pinned_composed
  obtain ⟨v, listed, refs⟩ := List.mem_map.mp
    (of_decide_eq_true h ▸ List.mem_singleton_self _ : ["u2"] ∈ w.composed.map fun v => v.view.messageRefs)
  exact ⟨w, v, ran, listed, refs, view_coverage (Sample.contextRun_reachable ran) v listed⟩

theorem view_once_pinned : ∃ w v, Sample.contextRun
    (fun w a => w.Plain Sample.contextHost a ∧ w.Apart Sample.contextHost a) Sample.pinnedRun = some w ∧
    v ∈ w.composed ∧ v.view.messageRefs = ["u2"] ∧ v.Once := by
  obtain ⟨w, ran, h⟩ := (Option.any_eq_true ..).mp Sample.pinned_apart
  obtain ⟨v, listed, refs⟩ := List.mem_map.mp
    (of_decide_eq_true h ▸ List.mem_singleton_self _ : ["u2"] ∈ w.composed.map fun v => v.view.messageRefs)
  exact ⟨w, v, ran, listed, refs, view_once (Sample.contextRun_reachable ran) v listed⟩

end MiHarness

import MiHarness.Core.Json
import MiHarness.Server.Projection

/-!
# The committed messages of a thread

`submit` stores the message of the user with the parts of the request, and the attachments that are not
among them.  The worker starts the graph with a message made from the input of the run, where one part of
text becomes plain text.  `message_commit` projects a message of the checkpoint, and `add_message` accepts
a message it has only with the same payload.

`history_committed` says when the two projections agree, and that the history of a thread can then be
committed, and committed again.
-/

namespace MiHarness

open Library

/-! ## Parts -/

/-- `ArtifactRef` of a request. -/
structure AttachmentRef where
  artifactId : String
  contentHash : String
  mimeType : String
  sizeBytes : Nat
  ownerId : String
  workspaceId : String
  provenanceRef : String
deriving DecidableEq

def AttachmentRef.dump (ref : AttachmentRef) : JsonData :=
  .object [("artifact_id", .string ref.artifactId), ("content_hash", .string ref.contentHash),
    ("mime_type", .string ref.mimeType), ("size_bytes", .int ref.sizeBytes),
    ("owner_id", .string ref.ownerId), ("workspace_id", .string ref.workspaceId),
    ("provenance_ref", .string ref.provenanceRef)]

/-- `TextPart`, `FilePart` and `ImagePart`. -/
inductive ContentPart where
  | text (text : String)
  | file (artifactRef : AttachmentRef) (label : Option String)
  | image (artifactRef : AttachmentRef) (alt : Option String)
deriving DecidableEq

def JsonData.ofOption : Option String → JsonData
  | none => .null
  | some s => .string s

def textPart (text : String) : JsonData := .object [("type", .string "text"), ("text", .string text)]

def ContentPart.dump : ContentPart → JsonData
  | .text s => textPart s
  | .file ref label => .object [("type", .string "file_reference"), ("artifact_ref", ref.dump),
      ("label", .ofOption label)]
  | .image ref alt => .object [("type", .string "image"), ("artifact_ref", ref.dump),
      ("alt", .ofOption alt)]

/-- `p["artifact_ref"]["artifact_id"]` of a part that has one. -/
def ContentPart.artifactId : ContentPart → Option String
  | .text _ => none
  | .file ref _ | .image ref _ => some ref.artifactId

def ContentPart.text? : ContentPart → Option String
  | .text s => some s
  | _ => none

/-- `ref["mime_type"].startswith("image/")`. -/
def AttachmentRef.isImage (ref : AttachmentRef) : Bool :=
  "image/".toList.isPrefixOf ref.mimeType.toList

/-- The part that `submit` makes of an attachment. -/
def AttachmentRef.part (ref : AttachmentRef) : JsonData :=
  .object [("type", .string (if ref.isImage then "image" else "file_reference")),
    ("artifact_ref", ref.dump)]

/-- The loop of `submit` over the attachments. -/
def attachParts : List AttachmentRef → List String → List JsonData
  | [], _ => []
  | ref :: rest, present =>
      if ref.artifactId ∈ present then attachParts rest present
      else ref.part :: attachParts rest (ref.artifactId :: present)

/-- `runs.input`: a dictionary that is read back has the same fields. -/
structure RunInput where
  text : String
  contentParts : List JsonData

/-- The input that `submit` makes of a request. -/
def submitInput (content : List ContentPart) (attachments : List AttachmentRef) : RunInput where
  text := "\n".intercalate (content.filterMap ContentPart.text?)
  contentParts := content.map ContentPart.dump ++
    attachParts attachments (content.filterMap ContentPart.artifactId)

/-! ## Messages of the graph -/

/-- `part.get(key)` when it is a text. -/
def JsonData.getString? (part : JsonData) (key : String) : Option String :=
  match part with
  | .object fields =>
      match fields.lookup key with
      | some (.string s) => some s
      | _ => none
  | _ => none

inductive MessageContent where
  | text (text : String)
  | blocks (items : List JsonData)

inductive GraphRole where
  | human | ai | tool | system
deriving DecidableEq

/-- A message of the checkpoint. -/
structure GraphMessage where
  id : MessageId
  type : GraphRole
  content : MessageContent
  /-- `harness_binding`. -/
  binding : List (String × Json) := []

/-- The content of the message that `_execute` starts the graph with. -/
def RunInput.startContent (input : RunInput) : MessageContent :=
  match (if input.contentParts.isEmpty then [textPart input.text] else input.contentParts) with
  | [part] =>
      if part.getString? "type" = some "text" then .text ((part.getString? "text").getD "")
      else .blocks [part]
  | parts => .blocks parts

def startMessage (id : MessageId) (input : RunInput) : GraphMessage :=
  { id, type := .human, content := input.startContent }

/-- The blocks that `public_message` keeps. -/
def JsonData.isPublic : JsonData → Bool
  | .string _ => true
  | part => (part.getString? "type").any fun type =>
      type ∈ ["text", "image", "image_url", "file_reference"]

def MessageContent.isPublic : MessageContent → MessageContent
  | .text s => .text s
  | .blocks items => .blocks (items.filter JsonData.isPublic)

/-- The parts that `message_commit` makes of a public content. -/
def MessageContent.parts : MessageContent → List JsonData
  | .text s => if s = "" then [] else [textPart s]
  | .blocks items => items

def GraphRole.role : GraphRole → String
  | .human => "user"
  | .ai => "assistant"
  | .tool => "tool"
  | .system => "system"

/-- The payload of `message_commit` for a message of the checkpoint. -/
def GraphMessage.payload (m : GraphMessage) : MessagePayload where
  messageId := m.id
  role := m.type.role
  contentParts := canonicalJson (.array m.content.isPublic.parts)
  modelBinding := m.binding

/-- The payload that `submit` stores. -/
def RunInput.payload (input : RunInput) (id : MessageId) : MessagePayload where
  messageId := id
  role := "user"
  contentParts := canonicalJson (.array input.contentParts)

/-! ## The two projections -/

/-- The request has one empty text and nothing else. -/
def BareEmpty (content : List ContentPart) (attachments : List AttachmentRef) : Prop :=
  content = [.text ""] ∧ attachments = []

/-- What a part of an accepted input can be. -/
theorem mem_contentParts {content : List ContentPart} {attachments : List AttachmentRef} {part : JsonData}
    (mem : part ∈ (submitInput content attachments).contentParts) :
    (∃ text, ContentPart.text text ∈ content ∧ part = textPart text) ∨
      part.getString? "type" = some "image" ∨ part.getString? "type" = some "file_reference" := by
  have attached : ∀ {attachments : List AttachmentRef} {present : List String},
      part ∈ attachParts attachments present →
        part.getString? "type" = some "image" ∨ part.getString? "type" = some "file_reference" := by
    intro attachments
    induction attachments with
    | nil => exact fun mem => nomatch mem
    | cons ref rest ih =>
        intro present mem
        unfold attachParts at mem
        split at mem
        · exact ih mem
        · rcases List.mem_cons.mp mem with rfl | mem
          · by_cases image : ref.isImage = true
            · exact .inl (by simp [AttachmentRef.part, JsonData.getString?, image])
            · exact .inr (by simp [AttachmentRef.part, JsonData.getString?, image])
          · exact ih mem
  rcases List.mem_append.mp mem with mem | mem
  · obtain ⟨source, listed, rfl⟩ := List.mem_map.mp mem
    cases source with
    | text text => exact .inl ⟨text, listed, rfl⟩
    | file ref label => exact .inr (.inr (by simp [ContentPart.dump, JsonData.getString?]))
    | image ref alt => exact .inr (.inl (by simp [ContentPart.dump, JsonData.getString?]))
  · exact .inr (attached mem)

theorem textPart_type (text : String) : (textPart text).getString? "type" = some "text" := by
  simp [textPart, JsonData.getString?]

theorem textPart_text (text : String) : (textPart text).getString? "text" = some text := by
  simp [textPart, JsonData.getString?, List.lookup_cons]

theorem JsonData.isPublic_of_type {part : JsonData} {type : String} (h : part.getString? "type" = some type)
    (known : type ∈ ["text", "image", "image_url", "file_reference"]) : part.isPublic = true := by
  unfold isPublic
  split
  · rfl
  · rw [h, Option.any_some]
    exact decide_eq_true known

theorem isPublic_contentParts {content : List ContentPart} {attachments : List AttachmentRef}
    {part : JsonData} (mem : part ∈ (submitInput content attachments).contentParts) :
    part.isPublic = true := by
  rcases mem_contentParts mem with ⟨text, -, rfl⟩ | image | file
  · exact JsonData.isPublic_of_type (textPart_type text) (by simp)
  · exact JsonData.isPublic_of_type image (by simp)
  · exact JsonData.isPublic_of_type file (by simp)

/-- A part of text comes from the content of the request. -/
theorem contentParts_eq_text {content : List ContentPart} {attachments : List AttachmentRef}
    {s : String} (h : (submitInput content attachments).contentParts = [textPart s]) :
    content = [.text s] ∧ attachments = [] := by
  have listed : textPart s ∈ (submitInput content attachments).contentParts :=
    h ▸ List.mem_singleton.mpr rfl
  have here : ∃ t, ContentPart.text t ∈ content ∧ textPart s = textPart t := by
    rcases mem_contentParts listed with here | image | file
    · exact here
    · exact absurd ((textPart_type s).symm.trans image) (by simp)
    · exact absurd ((textPart_type s).symm.trans file) (by simp)
  obtain ⟨t, mem, same⟩ := here
  have equal : s = t := by
    have texts := congrArg (JsonData.getString? · "text") same
    simpa only [textPart_text, Option.some.injEq] using texts
  subst equal
  have parts := congrArg List.length h
  simp only [submitInput, List.length_append, List.length_map, List.length_singleton] at parts
  have one : content = [.text s] := by
    have positive := List.length_pos_of_mem mem
    obtain ⟨part, rfl⟩ := List.length_eq_one_iff.mp (show content.length = 1 by omega)
    rw [List.mem_singleton.mp mem]
  subst one
  refine ⟨rfl, ?_⟩
  cases attachments with
  | nil => rfl
  | cons ref rest => simp [attachParts, ContentPart.artifactId] at parts

theorem canonicalJson_empty_text : canonicalJson (.array []) ≠ canonicalJson (.array [textPart ""]) := by
  decide

theorem RunInput.startContent_text {input : RunInput} {t : String}
    (h : input.contentParts = [textPart t]) : input.startContent = .text t := by
  simp [startContent, h, textPart_type, textPart_text]

/-- What becomes of the parts when the message of a run is committed. -/
theorem startContent_parts {content : List ContentPart} {attachments : List AttachmentRef}
    (full : ¬BareEmpty content attachments) :
    (submitInput content attachments).startContent.isPublic.parts =
      (submitInput content attachments).contentParts := by
  have blocks : ∀ parts, (submitInput content attachments).contentParts = parts →
      (MessageContent.blocks parts).isPublic.parts = parts := by
    rintro parts rfl
    exact List.filter_eq_self.mpr fun part mem => isPublic_contentParts mem
  cases hparts : (submitInput content attachments).contentParts with
  | nil =>
      -- without parts the text of the input is empty
      have none : content = [] := by
        have nil := (List.append_eq_nil_iff.mp hparts).1
        exact List.map_eq_nil_iff.mp nil
      have start : (submitInput content attachments).startContent = .text "" := by
        have text : (submitInput content attachments).text = "" := by
          rw [submitInput, none]
          rfl
        simp [RunInput.startContent, hparts, text, textPart_type, textPart_text]
      rw [start]
      rfl
  | cons part rest =>
      cases rest with
      | cons second rest =>
          have start : (submitInput content attachments).startContent =
              .blocks (part :: second :: rest) := by
            simp [RunInput.startContent, hparts]
          rw [start]
          exact blocks _ hparts
      | nil =>
          have other : part.getString? "type" ≠ some "text" →
              (submitInput content attachments).startContent.isPublic.parts = [part] := by
            intro other
            have start : (submitInput content attachments).startContent = .blocks [part] := by
              simp [RunInput.startContent, hparts, other]
            rw [start]
            exact blocks _ hparts
          have mem : part ∈ (submitInput content attachments).contentParts := by
            rw [hparts]
            exact List.mem_singleton.mpr rfl
          rcases mem_contentParts mem with ⟨t, -, rfl⟩ | image | file
          · have filled : t ≠ "" := by
              rintro rfl
              exact full (contentParts_eq_text hparts)
            rw [RunInput.startContent_text hparts]
            exact if_neg filled
          · exact other (by simp [image])
          · exact other (by simp [file])

/-- The message that the worker starts with is projected to the payload that `submit` has stored, but for
an empty text on its own. -/
theorem startMessage_payload (id : MessageId) (content : List ContentPart)
    (attachments : List AttachmentRef) : (startMessage id (submitInput content attachments)).payload =
      (submitInput content attachments).payload id ↔ ¬BareEmpty content attachments := by
  constructor
  · rintro same ⟨rfl, rfl⟩
    have parts : (submitInput [.text ""] []).startContent.isPublic.parts = [] := by
      rw [RunInput.startContent_text (t := "") rfl]
      rfl
    have texts := congrArg MessagePayload.contentParts same
    rw [GraphMessage.payload, RunInput.payload, startMessage, parts] at texts
    exact canonicalJson_empty_text texts
  · intro full
    rw [GraphMessage.payload, RunInput.payload, startMessage, startContent_parts full]
    rfl

/-! ## Histories -/

/-- `message_commit` of a message of the checkpoint, by a run. -/
def commitMessage (rid : RunId) (w : ChatWorld) (m : GraphMessage) : Except HarnessError ChatWorld := do
  let (messages, store) ← addMessage w.base.store w.messages rid m.payload w.base.now
  .ok ⟨{ w.base with store }, messages⟩

/-- The loop of `_outcome` over the messages of the checkpoint. -/
def commitHistory (rid : RunId) (w : ChatWorld) (history : List GraphMessage) :
    Except HarnessError ChatWorld := history.foldlM (commitMessage rid) w

/-- The service with the inputs of the accepted runs and with the threads of the graph. -/
structure HistoryWorld where
  chat : ChatWorld
  inputs : Table RunId RunInput := .empty
  /-- The messages that were ever put into a thread. -/
  made : Table MessageId GraphMessage := .empty
  /-- The messages of the last checkpoint of a branch. -/
  threads : Table BranchId (List MessageId) := .empty

def HistoryWorld.history (w : HistoryWorld) (bid : BranchId) : List GraphMessage :=
  ((w.threads.get? bid).getD []).filterMap w.made.get?

/-- The first message of the user that is stored for a run. -/
def ChatWorld.original (w : ChatWorld) (bid : BranchId) (rid : RunId) : Option MessageId :=
  ((w.messages.select fun _ m =>
    decide (m.branchId = bid) && decide (m.runId = rid) && decide (m.payload.role = "user")).head?).map
      Prod.fst

inductive HistoryAction where
  | chat (a : ChatAction)
  | submit (owner : OwnerId) (session : SessionId) (request : Submission) (fresh : RunId)
      (message : MessageId) (content : List ContentPart) (attachments : List AttachmentRef)
  /-- The worker makes the message that a run starts with. -/
  | start (rid : RunId)
  /-- The graph, or the start of a delegated run, makes a message with an id of its own. -/
  | make (m : GraphMessage)
  /-- A checkpoint: messages are appended, rolled back, or those of another branch. -/
  | persist (bid : BranchId) (ids : List MessageId)
  | commit (rid : RunId) (id : MessageId)

/-- The transactions that neither submit nor commit. -/
def ChatAction.besides : ChatAction → Bool
  | .base .. | .note .. => true
  | .submit .. | .addMessage .. => false

def HistoryWorld.Step (host : Host) (w : HistoryWorld) : HistoryAction → HistoryWorld → Prop
  | .chat a, w' => a.besides = true ∧ ∃ chat, w.chat.Step host a chat ∧ w' = { w with chat }
  | .submit owner session request fresh message content attachments, w' =>
      w.chat.messages.get? message = none ∧ w.made.get? message = none ∧ ∃ chat,
        w.chat.Step host (.submit owner session
          { request with text := (submitInput content attachments).text } fresh message
          (canonicalJson (.array (submitInput content attachments).contentParts))) chat ∧
        w' = { w with chat, inputs := w.inputs.put fresh (submitInput content attachments) }
  | .start rid, w' => ∃ run input id, w.chat.base.store.runs.get? rid = some run ∧
      w.inputs.get? rid = some input ∧ w.chat.original run.branchId rid = some id ∧
      w' = { w with made := w.made.put id (startMessage id input) }
  | .make m, w' => w.chat.messages.get? m.id = none ∧ w.made.get? m.id = none ∧
      w' = { w with made := w.made.put m.id m }
  | .persist bid ids, w' => (∀ id ∈ ids, ∃ m, w.made.get? id = some m) ∧
      w' = { w with threads := w.threads.put bid ids }
  | .commit rid id, w' => ∃ m chat, w.made.get? id = some m ∧ commitMessage rid w.chat m = .ok chat ∧
      w' = { w with chat }

def historySystem (host : Host) : System HistoryWorld HistoryAction where
  init w := (chatSystem host).init w.chat ∧ w.inputs = .empty ∧ w.made = .empty ∧ w.threads = .empty
  step := HistoryWorld.Step host

/-- A submit has more than one empty text. -/
def HistoryAction.Full : HistoryAction → Prop
  | .submit _ _ _ _ _ content attachments => ¬BareEmpty content attachments
  | _ => True

/-! ## One commit -/

variable {host : Host} {w w' : HistoryWorld} {rid : RunId} {c c' : ChatWorld}

/-- The message is stored with the payload of its projection. -/
def ChatWorld.Stored (w : ChatWorld) (m : GraphMessage) : Prop :=
  ∃ row, w.messages.get? m.id = some row ∧ row.payload = m.payload

theorem addMessage_stored {s : Store} {messages : Table MessageId Message} {payload : MessagePayload}
    {now : Time} {run : Run} {row : Message} (hrun : s.runs.get? rid = some run)
    (found : messages.get? payload.messageId = some row) (same : row.payload = payload) :
    addMessage s messages rid payload now = .ok (messages, s) := by
  rw [addMessage, Store.run_eq_ok.mpr hrun, ok_bind, found]
  dsimp only
  rw [require_pos _ same, ok_bind]

theorem addMessage_new {s : Store} {messages : Table MessageId Message} {payload : MessagePayload}
    {now : Time} {run : Run} (hrun : s.runs.get? rid = some run)
    (absent : messages.get? payload.messageId = none) : ∃ messages',
      messages.insert? payload.messageId ⟨rid, run.branchId, payload.role, payload⟩ = some messages' ∧
        addMessage s messages rid payload now =
          .ok (messages', s.event rid .messageCommitted (.message payload) now) := by
  obtain ⟨messages', inserted⟩ :=
    Table.insert?_of_fresh (Message.mk rid run.branchId payload.role payload) absent
  refine ⟨messages', inserted, ?_⟩
  rw [addMessage, Store.run_eq_ok.mpr hrun, ok_bind, absent]
  dsimp only
  rw [inserted, orThrow, ok_bind]

/-- A message that is stored is committed again without effect. -/
theorem ChatWorld.Stored.commit {m : GraphMessage} {run : Run} (stored : c.Stored m)
    (hrun : c.base.store.runs.get? rid = some run) : commitMessage rid c m = .ok c := by
  obtain ⟨row, found, same⟩ := stored
  rw [commitMessage, addMessage_stored hrun found same, ok_bind]

theorem commitHistory_stored {history : List GraphMessage} {run : Run}
    (stored : ∀ m ∈ history, c.Stored m) (hrun : c.base.store.runs.get? rid = some run) :
    commitHistory rid c history = .ok c := by
  induction history with
  | nil => rfl
  | cons m rest ih =>
      rw [commitHistory, List.foldlM_cons, (stored m (List.mem_cons_self ..)).commit hrun, ok_bind]
      exact ih fun m' mem => stored m' (List.mem_cons_of_mem _ mem)

/-- What is stored under the id of a message that was made is its projection. -/
def ChatWorld.Agrees (w : ChatWorld) (made : Table MessageId GraphMessage) : Prop :=
  ∀ id row m, w.messages.get? id = some row → made.get? id = some m → row.payload = m.payload

/-- What a commit does: it adds the message, if it is not stored. -/
structure ChatWorld.Commits (c c' : ChatWorld) (m : GraphMessage) : Prop where
  runs : c'.base.store.runs = c.base.store.runs
  stored : c'.Stored m
  kept : ∀ id row, c.messages.get? id = some row → c'.messages.get? id = some row
  added : ∀ id row, c'.messages.get? id = some row → c.messages.get? id = some row ∨
    id = m.id ∧ row.payload = m.payload

theorem commitMessage_commits {made : Table MessageId GraphMessage} {m : GraphMessage} {run : Run}
    (agrees : c.Agrees made) (hmade : made.get? m.id = some m)
    (hrun : c.base.store.runs.get? rid = some run) :
    ∃ c', commitMessage rid c m = .ok c' ∧ c.Commits c' m := by
  cases found : c.messages.get? m.id with
  | some row =>
      have stored : c.Stored m := ⟨row, found, agrees m.id row m found hmade⟩
      exact ⟨c, stored.commit hrun, rfl, stored, fun _ _ h => h, fun _ _ h => .inl h⟩
  | none =>
      have absent : c.messages.get? m.payload.messageId = none := found
      obtain ⟨messages', inserted, added⟩ := @addMessage_new _ _ _ _ c.base.now _ hrun absent
      have rows := (Table.insert?_eq_some inserted).2
      let store := c.base.store.event rid .messageCommitted (.message m.payload) c.base.now
      refine ⟨⟨{ c.base with store }, messages'⟩, by rw [commitMessage, added]; rfl, rfl, ?_,
        fun id row h => ?_, fun id row h => ?_⟩
      · exact ⟨_, (rows m.id).trans (if_pos rfl), rfl⟩
      · have other : id ≠ m.id := fun same => by
          rw [same, found] at h
          cases h
        exact (rows id).trans ((if_neg other).trans h)
      · dsimp only at h
        rw [rows] at h
        split at h
        · rename_i same
          cases h
          exact .inr ⟨same, rfl⟩
        · exact .inl h

theorem ChatWorld.Commits.agrees {made : Table MessageId GraphMessage} {m : GraphMessage}
    (commits : c.Commits c' m) (agrees : c.Agrees made) (hmade : made.get? m.id = some m) :
    c'.Agrees made := by
  intro id row m' found hm'
  rcases commits.added id row found with before | ⟨rfl, same⟩
  · exact agrees id row m' before hm'
  · cases hmade.symm.trans hm'
    exact same

theorem commitHistory_commits {made : Table MessageId GraphMessage} {history : List GraphMessage}
    {run : Run} (own : ∀ m ∈ history, made.get? m.id = some m) (agrees : c.Agrees made)
    (hrun : c.base.store.runs.get? rid = some run) :
    ∃ c', commitHistory rid c history = .ok c' ∧ c'.base.store.runs = c.base.store.runs ∧
      (∀ id row, c.messages.get? id = some row → c'.messages.get? id = some row) ∧
      ∀ m ∈ history, c'.Stored m := by
  induction history generalizing c with
  | nil => exact ⟨c, rfl, rfl, fun _ _ h => h, fun _ mem => nomatch mem⟩
  | cons m rest ih =>
      have hmade := own m (List.mem_cons_self ..)
      obtain ⟨c₁, commit, commits⟩ := commitMessage_commits agrees hmade hrun
      obtain ⟨c', loop, runs, kept, stored⟩ :=
        ih (fun m' mem => own m' (List.mem_cons_of_mem _ mem)) (commits.agrees agrees hmade)
          (commits.runs ▸ hrun)
      refine ⟨c', ?_, runs.trans commits.runs, fun id row h => kept id row (commits.kept id row h), ?_⟩
      · rw [commitHistory, List.foldlM_cons, commit, ok_bind]
        exact loop
      · refine List.forall_mem_cons.mpr ⟨?_, stored⟩
        obtain ⟨row, found, same⟩ := commits.stored
        exact ⟨row, kept m.id row found, same⟩

/-! ## Runs -/

/-- A row of `messages` is never changed. -/
theorem HistoryWorld.Step.kept {a : HistoryAction} (step : w.Step host a w') {id : MessageId}
    {row : Message} (found : w.chat.messages.get? id = some row) :
    w'.chat.messages.get? id = some row := by
  have chat : ∀ {b : ChatAction} {chat : ChatWorld}, w.chat.Step host b chat →
      chat.messages.get? id = some row := by
    intro b chat step
    obtain ⟨new, speaks⟩ := step.speaks
    rcases speaks.messages with ⟨same, -⟩ | ⟨row', inserted, -⟩
    · rw [same]
      exact found
    · obtain ⟨absent, rows⟩ := Table.insert?_eq_some inserted
      rw [rows]
      split
      · rename_i same
        rw [← same, found] at absent
        cases absent
      · exact found
  cases a with
  | chat b =>
      obtain ⟨-, chat', turn, rfl⟩ := step
      exact chat turn
  | submit =>
      obtain ⟨-, -, chat', turn, rfl⟩ := step
      exact chat turn
  | commit rid id' =>
      obtain ⟨m, chat', -, commit, rfl⟩ := step
      obtain ⟨⟨messages, store⟩, added, same⟩ := bind_eq_ok.mp commit
      cases same
      exact chat (b := .addMessage rid m.payload) ⟨messages, store, added, rfl⟩
  | start =>
      obtain ⟨_, _, _, -, -, -, rfl⟩ := step
      exact found
  | make =>
      obtain ⟨-, -, rfl⟩ := step
      exact found
  | persist =>
      obtain ⟨-, rfl⟩ := step
      exact found

/-- What stays the original of a run while messages are added. -/
theorem ChatWorld.Step.original {a : ChatAction} (step : c.Step host a c') {bid : BranchId} {id : MessageId}
    (h : c.original bid rid = some id) : c'.original bid rid = some id := by
  obtain ⟨new, speaks⟩ := step.speaks
  rcases speaks.messages with ⟨same, -⟩ | ⟨row, inserted, -⟩
  · rw [ChatWorld.original, same]
    exact h
  · obtain ⟨e, head, rfl⟩ := Option.map_eq_some_iff.mp h
    rw [ChatWorld.original, Table.select_insert? inserted, List.head?_append, head]
    rfl

/-- What holds while every submit has more than one empty text. -/
structure HistoryWorld.Sound (w : HistoryWorld) : Prop where
  filed : w.chat.Filed
  agrees : w.chat.Agrees w.made
  own : ∀ id m, w.made.get? id = some m → m.id = id
  /-- The original of an accepted run has the payload of the message that the run starts with. -/
  original : ∀ rid input, w.inputs.get? rid = some input → ∃ run id row,
    w.chat.base.store.runs.get? rid = some run ∧ w.chat.original run.branchId rid = some id ∧
      w.chat.messages.get? id = some row ∧ row.payload = (startMessage id input).payload

/-- A transaction that keeps what is stored under the messages that were made. -/
theorem HistoryWorld.Sound.chat {a : ChatAction} {chat : ChatWorld} (sound : w.Sound)
    (step : w.chat.Step host a chat) (agrees : chat.Agrees w.made)
    (kept : ∀ id row, w.chat.messages.get? id = some row → chat.messages.get? id = some row) :
    ({ w with chat } : HistoryWorld).Sound where
  filed := by
    obtain ⟨new, speaks⟩ := step.speaks
    exact sound.filed.speaks speaks
  agrees := agrees
  own := sound.own
  original rid input hinput := by
    obtain ⟨run, id, row, hrun, original, found, same⟩ := sound.original rid input hinput
    obtain ⟨new, speaks⟩ := step.speaks
    obtain ⟨run', hrun', place⟩ := speaks.store.places rid run hrun
    have branch : run'.branchId = run.branchId := by
      simp only [Run.place, Prod.mk.injEq] at place
      exact place.2.2.2.1
    exact ⟨run', id, row, hrun', branch ▸ step.original original, kept id row found, same⟩

theorem submit_rows {owner : OwnerId} {session : SessionId} {request : Submission} {fresh : RunId}
    {message : MessageId} {contentParts : Json}
    (step : c.Step host (.submit owner session request fresh message contentParts) c')
    (absent : c.messages.get? message = none) :
    c.base.store.runs.get? fresh = none ∧ ∃ run, c'.base.store.runs.get? fresh = some run ∧
      c.messages.insert? message
        ⟨fresh, run.branchId, "user", ⟨message, "user", contentParts, []⟩⟩ = some c'.messages := by
  obtain ⟨messages, store, submitted, rfl⟩ := step
  obtain ⟨row, opened, t, hopen, hadd, rfl⟩ := submitMessage_eq_ok submitted
  obtain ⟨hinsert, -⟩ := openRun_eq_ok hopen
  obtain ⟨unused, rows⟩ := Table.insert?_eq_some hinsert
  refine ⟨unused, ?_⟩
  rcases addMessage_eq_ok hadd with ⟨existing, found, -⟩ | ⟨run, hrun, hmessages, rfl⟩
  · cases absent.symm.trans found
  · exact ⟨run, hrun, hmessages⟩

/-- A message is made under its own id, and agrees with what is stored there. -/
theorem HistoryWorld.Sound.making (sound : w.Sound) {m : GraphMessage}
    (agrees : ∀ row, w.chat.messages.get? m.id = some row → row.payload = m.payload) :
    ({ w with made := w.made.put m.id m } : HistoryWorld).Sound := by
  refine ⟨sound.filed, fun id row m' found made => ?_, fun id m' made => ?_, sound.original⟩
  · rw [Table.get?_put] at made
    split at made
    · rename_i here
      cases made
      exact agrees row (here ▸ found)
    · exact sound.agrees id row m' found made
  · rw [Table.get?_put] at made
    split at made
    · rename_i here
      cases made
      exact here.symm
    · exact sound.own id m' made

/-- The message of a submit is the original of its run. -/
theorem HistoryWorld.Sound.submits (sound : w.Sound) {owner : OwnerId} {session : SessionId}
    {request : Submission} {fresh : RunId} {message : MessageId} {content : List ContentPart}
    {attachments : List AttachmentRef} (full : ¬BareEmpty content attachments)
    (step : w.Step host (.submit owner session request fresh message content attachments) w') :
    w'.Sound := by
  have kept := fun id row (found : w.chat.messages.get? id = some row) => step.kept found
  obtain ⟨absent, unmade, chat, turn, rfl⟩ := step
  obtain ⟨unused, run, hrun, inserted⟩ := submit_rows turn absent
  have rows := (Table.insert?_eq_some inserted).2
  have before : ({ w with chat } : HistoryWorld).Sound := by
    refine sound.chat turn (fun id row m found made => ?_) kept
    rw [rows] at found
    split at found
    · rename_i same
      rw [same, unmade] at made
      cases made
    · exact sound.agrees id row m found made
  refine ⟨before.filed, before.agrees, before.own, fun rid input hinput => ?_⟩
  rw [Table.get?_put] at hinput
  split at hinput
  swap
  · exact before.original rid input hinput
  rename_i same
  subst same
  cases hinput
  refine ⟨run, message, _, hrun, ?_, (rows message).trans (if_pos rfl),
    ((startMessage_payload message content attachments).mpr full).symm⟩
  -- no message of the run is stored before its own
  have none : w.chat.messages.select (fun _ m => decide (m.branchId = run.branchId) &&
      decide (m.runId = rid) && decide (m.payload.role = "user")) = [] := by
    refine List.filter_eq_nil_iff.mpr fun e mem own => ?_
    simp only [Bool.and_eq_true, decide_eq_true_eq] at own
    obtain ⟨-, run', hrun', -⟩ := sound.filed e.1 e.2 (Table.mem_rows.mp mem)
    rw [own.1.2, unused] at hrun'
    cases hrun'
  rw [ChatWorld.original, Table.select_insert? inserted, none]
  simp

/-- A commit of a message that was made stores its payload, or finds it stored. -/
theorem HistoryWorld.Sound.commits (sound : w.Sound) {id : MessageId}
    (step : w.Step host (.commit rid id) w') : w'.Sound := by
  have kept := fun id row (found : w.chat.messages.get? id = some row) => step.kept found
  obtain ⟨m, chat, made, commit, rfl⟩ := step
  obtain ⟨⟨messages, store⟩, added, same⟩ := bind_eq_ok.mp commit
  cases same
  have turn : w.chat.Step host (.addMessage rid m.payload) ⟨{ w.chat.base with store }, messages⟩ :=
    ⟨messages, store, added, rfl⟩
  have own := sound.own id m made
  refine sound.chat turn (fun id₁ row₁ m₁ found₁ made₁ => ?_) kept
  rcases addMessage_eq_ok added with ⟨_, -, -, rfl, rfl⟩ | ⟨run, hrun, inserted, rfl⟩
  · exact sound.agrees id₁ row₁ m₁ found₁ made₁
  · dsimp only at found₁
    rw [(Table.insert?_eq_some inserted).2] at found₁
    split at found₁
    · rename_i here
      cases found₁
      have here' : id₁ = id := here.trans own
      cases made.symm.trans (here' ▸ made₁)
      rfl
    · exact sound.agrees id₁ row₁ m₁ found₁ made₁

theorem HistoryWorld.Sound.step {a : HistoryAction} (sound : w.Sound) (full : a.Full)
    (step : w.Step host a w') : w'.Sound := by
  cases a with
  | chat b =>
      have kept := fun id row (found : w.chat.messages.get? id = some row) => step.kept found
      obtain ⟨besides, chat, turn, rfl⟩ := step
      refine sound.chat turn (fun id row m found made => ?_) kept
      have messages : chat.messages = w.chat.messages := by
        cases b with
        | base a log =>
            obtain ⟨-, _, _, -, -, -, rfl⟩ := turn
            rfl
        | note =>
            obtain ⟨-, -, rfl⟩ := turn
            rfl
        | submit => cases besides
        | addMessage => cases besides
      exact sound.agrees id row m (messages ▸ found) made
  | submit => exact sound.submits full step
  | start rid =>
      obtain ⟨run, input, id, hrun, hinput, original, rfl⟩ := step
      obtain ⟨run', id', row, hrun', original', found, same⟩ := sound.original rid input hinput
      cases hrun.symm.trans hrun'
      cases original.symm.trans original'
      refine sound.making (m := startMessage id input) fun row' found' => ?_
      cases found.symm.trans found'
      exact same
  | make m =>
      obtain ⟨absent, -, rfl⟩ := step
      refine sound.making fun row found => ?_
      rw [absent] at found
      cases found
  | persist bid ids =>
      obtain ⟨-, rfl⟩ := step
      exact ⟨sound.filed, sound.agrees, sound.own, sound.original⟩
  | commit => exact sound.commits step

theorem HistoryWorld.Sound.init (start : (historySystem host).init w) : w.Sound := by
  obtain ⟨⟨-, messages⟩, inputs, made, -⟩ := start
  constructor
  · intro id m found
    rw [messages] at found
    cases found
  · intro id row m found
    rw [messages] at found
    cases found
  · intro id m found
    rw [made] at found
    cases found
  · intro rid input found
    rw [inputs] at found
    cases found

/-- The messages of a thread are messages that were made. -/
theorem HistoryWorld.Sound.history (sound : w.Sound) {bid : BranchId} {m : GraphMessage}
    (mem : m ∈ w.history bid) : w.made.get? m.id = some m := by
  obtain ⟨id, -, made⟩ := List.mem_filterMap.mp mem
  rw [sound.own id m made]
  exact made

/-- What is committed stays committed. -/
theorem ChatWorld.Stored.path {m : GraphMessage} (stored : w.chat.Stored m)
    (path : (historySystem host).Path w w') : w'.chat.Stored m := by
  induction path with
  | refl => exact stored
  | tail _ step ih =>
      obtain ⟨row, found, same⟩ := ih
      exact ⟨row, step.kept found, same⟩

/-- The message that a run starts with has the payload that `submit` has stored exactly when the request is
not one empty text alone.  In a run whose submits are not, every run can commit the history of any thread,
and a run that commits it again at any later time changes nothing. -/
theorem history_committed (host : Host) :
    (∀ id content attachments, (startMessage id (submitInput content attachments)).payload =
      (submitInput content attachments).payload id ↔ ¬BareEmpty content attachments) ∧
    ∀ w, ((historySystem host).restrict fun _ a => a.Full).Reachable w →
      ∀ bid rid run, w.chat.base.store.runs.get? rid = some run →
        ∃ chat, commitHistory rid w.chat (w.history bid) = .ok chat ∧
          ∀ w', (historySystem host).Path { w with chat } w' →
            ∀ rid' run', w'.chat.base.store.runs.get? rid' = some run' →
              commitHistory rid' w'.chat (w.history bid) = .ok w'.chat := by
  refine ⟨startMessage_payload, fun w reached bid rid run hrun => ?_⟩
  have sound : w.Sound := by
    refine reached.invariant (fun _ start => ?_) fun _ _ _ _ sound step => sound.step step.1 step.2
    exact @HistoryWorld.Sound.init host _ start
  obtain ⟨chat, commit, -, -, stored⟩ :=
    commitHistory_commits (fun m mem => sound.history mem) sound.agrees hrun
  refine ⟨chat, commit, fun w' path rid' run' hrun' => ?_⟩
  exact commitHistory_stored (fun m mem => (stored m mem).path path) hrun'

namespace Sample

/-- The request of run `10`, of parts without attachments. -/
def submission (content : List ContentPart) : Submission :=
  ⟨1, 1, 1, 1, (submitInput content []).text, ∅, 1000000⟩

/-- Its transaction, with message `7`. -/
def post (content : List ContentPart) : Except HarnessError (Table MessageId Message × Store) :=
  submitMessage branched.store .empty 1 1 (submission content) 10 7
    (canonicalJson (.array (submitInput content []).contentParts)) branched.now

/-- The run is submitted and started, and its thread is persisted with the message of the user. -/
theorem thread_reachable {C : HistoryAction → Prop} (full : ∀ a, a.Full → C a)
    {content : List ContentPart} (posts : C (.submit 1 1 (submission content) 10 7 content []))
    {posted : Table MessageId Message × Store} (accepted : post content = .ok posted) :
    ∃ w run, ((historySystem host).restrict fun _ a => C a).Reachable w ∧
      w.chat.base.store.runs.get? 10 = some run ∧
      w.history run.branchId = [startMessage 7 (submitInput content [])] ∧
      ∃ row, w.chat.messages.get? 7 = some row ∧
        row.payload = (submitInput content []).payload 7 := by
  have branch : World.next host start (.addBranch 1 { sessionId := 1, graphThreadKey := 5 }) =
      some branched := (Option.some_get _).symm
  let input := submitInput content []
  let chat : ChatWorld := ⟨{ branched with store := posted.2 }, posted.1⟩
  obtain ⟨log, opened⟩ := ChatWorld.Step.own (w := ⟨start, .empty⟩) rfl branch
  have turn : ChatWorld.Step host ⟨branched, .empty⟩
      (.submit 1 1 (submission content) 10 7 (canonicalJson (.array input.contentParts))) chat :=
    ⟨_, _, accepted, rfl⟩
  obtain ⟨-, run, hrun, inserted⟩ := submit_rows turn rfl
  have original : chat.original run.branchId 10 = some 7 := by
    rw [ChatWorld.original, Table.select_insert? inserted]
    simp [Table.select, Table.empty]
  let inputs : Table RunId RunInput := Table.empty.put 10 input
  let made : Table MessageId GraphMessage := Table.empty.put 7 (startMessage 7 input)
  let threads : Table BranchId (List MessageId) := Table.empty.put run.branchId [7]
  have branching : (historySystem host).step { chat := ⟨start, .empty⟩ }
      (.chat (.base (.addBranch 1 { sessionId := 1, graphThreadKey := 5 }) log))
      { chat := ⟨branched, .empty⟩ } := ⟨rfl, _, opened, rfl⟩
  have submitted : (historySystem host).step { chat := ⟨branched, .empty⟩ }
      (.submit 1 1 (submission content) 10 7 content []) { chat, inputs } :=
    ⟨rfl, rfl, chat, turn, rfl⟩
  have started : (historySystem host).step { chat, inputs } (.start 10) { chat, inputs, made } :=
    ⟨run, input, 7, hrun, rfl, original, rfl⟩
  have persisted : (historySystem host).step { chat, inputs, made } (.persist run.branchId [7])
      { chat, inputs, made, threads } :=
    ⟨fun id mem => ⟨startMessage 7 input, by rw [List.mem_singleton.mp mem]; rfl⟩, rfl⟩
  have init : ((historySystem host).restrict fun _ a => C a).Reachable
      { chat := ⟨start, .empty⟩ } := .init ⟨⟨rfl, rfl⟩, rfl, rfl, rfl⟩
  have reached := ((init.stepIf branching (full _ trivial)).stepIf submitted posts).stepIf started
    (full _ trivial)
  refine ⟨_, run, reached.stepIf persisted (full _ trivial), hrun, ?_, _,
    ((Table.insert?_eq_some inserted).2 7).trans (if_pos rfl), rfl⟩
  rw [HistoryWorld.history, Table.get?_put, if_pos rfl]
  rfl

end Sample

/-- A run with one text commits its history, and committing it again leaves the state as it is. -/
theorem history_committed_text : ∃ w run,
    ((historySystem Sample.host).restrict fun _ a => a.Full).Reachable w ∧
      w.chat.base.store.runs.get? 10 = some run ∧
      w.history run.branchId = [startMessage 7 (submitInput [.text "goal"] [])] ∧
      ∃ chat, commitHistory 10 w.chat (w.history run.branchId) = .ok chat ∧
        commitHistory 10 chat (w.history run.branchId) = .ok chat := by
  have full : HistoryAction.Full (.submit 1 1 (Sample.submission [.text "goal"]) 10 7
      [.text "goal"] []) := by
    rintro ⟨same, -⟩
    simp at same
  have accepted : ∃ posted, Sample.post [.text "goal"] = .ok posted :=
    ⟨_, toOption_get (by decide +kernel)⟩
  obtain ⟨posted, accepted⟩ := accepted
  obtain ⟨w, run, reached, hrun, history, row, found, payload⟩ :=
    Sample.thread_reachable (fun _ full => full) full accepted
  obtain ⟨chat, commit, again⟩ :=
    (history_committed Sample.host).2 w reached run.branchId 10 run hrun
  have same : commitHistory 10 w.chat (w.history run.branchId) = .ok w.chat := by
    refine commitHistory_stored (fun m mem => ?_) hrun
    rw [history] at mem
    cases List.mem_singleton.mp mem
    exact ⟨row, found, payload.trans ((startMessage_payload 7 _ _).mpr full).symm⟩
  cases commit.symm.trans same
  exact ⟨w, run, reached, hrun, history, w.chat, commit, again _ .refl 10 run hrun⟩

theorem commitMessage_conflict {m : GraphMessage} {run : Run} {row : Message}
    (hrun : c.base.store.runs.get? rid = some run) (found : c.messages.get? m.id = some row)
    (other : row.payload ≠ m.payload) : commitMessage rid c m =
      .error { code := .messageConflict, message := "完整消息 ID 已绑定其他内容" } := by
  have found' : c.messages.get? m.payload.messageId = some row := found
  rw [commitMessage, addMessage, Store.run_eq_ok.mpr hrun, ok_bind, found']
  dsimp only
  rw [require_neg _ other, error_bind, error_bind]

/-- A run that was submitted with one empty text cannot commit its history. -/
theorem bare_conflict : ∃ w run, (historySystem Sample.host).Reachable w ∧
    w.chat.base.store.runs.get? 10 = some run ∧ commitHistory 10 w.chat (w.history run.branchId) =
      .error { code := .messageConflict, message := "完整消息 ID 已绑定其他内容" } := by
  have accepted : ∃ posted, Sample.post [.text ""] = .ok posted :=
    ⟨_, toOption_get (by decide +kernel)⟩
  obtain ⟨posted, accepted⟩ := accepted
  obtain ⟨w, run, reached, hrun, history, row, found, payload⟩ :=
    Sample.thread_reachable (C := fun _ => True) (fun _ _ => trivial) trivial accepted
  refine ⟨w, run, reached.of_restrict, hrun, ?_⟩
  have conflict := commitMessage_conflict (m := startMessage 7 (submitInput [.text ""] [])) hrun found
    fun same => (startMessage_payload 7 [.text ""] []).mp (same.symm.trans payload) ⟨rfl, rfl⟩
  rw [history, commitHistory, List.foldlM_cons, conflict, error_bind]

end MiHarness

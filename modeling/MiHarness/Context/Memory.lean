import Mathlib.Data.List.Dedup
import Mathlib.Data.List.Infix
import MiHarness.Library.System
import MiHarness.Storage.Versioned

/-!
# Memory

Records that an owner proposes, reviews, edits and deletes, each with a revision.  A deleted record
stays in its table with the state `deleted`.  `retrieveMemory` pages through all records that the caller
may see, scores them and cuts the best.

What the access check of the host raises is an argument of every call.  The words of a query and the
lower case of a text are parameters.
-/

namespace MiHarness

open Library

abbrev MemoryId := Nat

inductive MemoryScope where
  | workspace | user
deriving DecidableEq, Repr

inductive MemoryKind where
  | fact | preference | procedure | pinned
deriving DecidableEq, Repr

inductive ReviewState where
  | proposed | accepted | rejected | deleted
deriving DecidableEq, Repr

structure MemoryRecord where
  id : MemoryId
  revision : Nat := 1
  owner : OwnerId
  workspace : WorkspaceId
  scope : MemoryScope := .workspace
  kind : MemoryKind := .fact
  content : List Char
  sourceRefs : Json := "[]"
  createdAt : Time
  expiresAt : Option Time := none
  confidence : Option Rat := none
  reviewState : ReviewState := .proposed
deriving DecidableEq

/-- Who calls: an owner, or a context with its workspace. -/
structure Identity where
  owner : OwnerId
  workspace : Option WorkspaceId := none
deriving DecidableEq

inductive MemoryCode where
  | memoryNotFound | invalidMemoryField | invalidCursor | revisionConflict | invalidDecision
  | invalidMemoryState | immutableMemoryField
deriving DecidableEq, Repr

inductive MemoryFault where
  | memory (code : MemoryCode) (message : String) (status : Nat)
  /-- What the access check or the store raises. -/
  | harness (error : HarnessError)
  /-- A record that its model refuses. -/
  | validation
deriving DecidableEq

abbrev MemoryStore := Versioned MemoryId MemoryRecord

/-- What `access_check` raises for a workspace. -/
abbrev AccessCheck := WorkspaceId → Option HarnessError

def notAccessible : MemoryFault :=
  .memory .memoryNotFound "Memory record is not accessible" 404

def checkAccess (access : AccessCheck) (workspace : WorkspaceId) : Except MemoryFault Unit :=
  match access workspace with
  | some error => .error (.harness error)
  | none => .ok ()

/-- A write of the store, with what it raises. -/
def stored {α : Type} (x : Except HarnessError α) : Except MemoryFault α := x.mapError .harness

/-! ## The calls -/

/-- The fields of a proposal besides its content and its sources.  `expiresAt` is `some none` when the
text is no instant with a timezone. -/
structure ProposalFields where
  scope : MemoryScope := .workspace
  kind : MemoryKind := .fact
  expiresAt : Option (Option Time) := none
  confidence : Option Rat := none
  unsupported : Bool := false
deriving DecidableEq

/-- `MemoryRecord.model_validate` of the fields that can be wrong. -/
def validMemory (content : List Char) (expiresAt : Option (Option Time)) (confidence : Option Rat) :
    Prop :=
  content ≠ [] ∧ expiresAt ≠ some none ∧ ∀ c ∈ confidence, 0 ≤ c ∧ c ≤ 1

instance (content : List Char) (expiresAt : Option (Option Time)) (confidence : Option Rat) :
    Decidable (validMemory content expiresAt confidence) :=
  inferInstanceAs (Decidable (_ ∧ _ ∧ ∀ c ∈ confidence, 0 ≤ c ∧ c ≤ 1))

/-- `fresh` is the id of the new record. -/
def proposeMemory (w : MemoryStore) (identity : Identity) (access : AccessCheck)
    (workspace : WorkspaceId) (content : List Char) (sourceRefs : Json) (fields : ProposalFields)
    (fresh : MemoryId) (now : Time) : Except MemoryFault MemoryStore := do
  checkAccess access workspace
  require (fields.unsupported = false)
    (.memory .invalidMemoryField "Memory proposals contain unsupported fields" 422)
  require (validMemory content fields.expiresAt fields.confidence) .validation
  stored (w.put fresh {
    id := fresh, owner := identity.owner, workspace, content, sourceRefs, createdAt := now
    scope := fields.scope, kind := fields.kind, confidence := fields.confidence
    expiresAt := fields.expiresAt.join })

/-- `MemoryService._check`. -/
def checkMemory (identity : Identity) (access : AccessCheck) (r : MemoryRecord) :
    Except MemoryFault Unit := do
  require (identity.owner = r.owner) notAccessible
  require (r.scope = .workspace → ∀ workspace ∈ identity.workspace, workspace = r.workspace)
    notAccessible
  checkAccess access r.workspace

def getMemory (w : MemoryStore) (identity : Identity) (access : AccessCheck) (id : MemoryId) :
    Except MemoryFault MemoryRecord := do
  let r ← orThrow (w.get id) (.memory .memoryNotFound "Memory record was not found" 404)
  checkMemory identity access r
  require (r.reviewState ≠ .deleted) (.memory .memoryNotFound "Memory record was deleted" 404)
  return r

/-- What `update` may change. -/
structure MemoryPatch where
  content : Option (List Char) := none
  sourceRefs : Option Json := none
  expiresAt : Option (Option (Option Time)) := none
  reviewState : Option ReviewState := none
  unsupported : Bool := false
deriving DecidableEq

def MemoryPatch.apply (patch : MemoryPatch) (old : MemoryRecord) : MemoryRecord :=
  { old with
    content := patch.content.getD old.content
    sourceRefs := patch.sourceRefs.getD old.sourceRefs
    expiresAt := (patch.expiresAt.map Option.join).getD old.expiresAt
    reviewState := patch.reviewState.getD old.reviewState
    revision := old.revision + 1 }

/-- `MemoryService._replace`. -/
def replaceMemory (w : MemoryStore) (old : MemoryRecord) (patch : MemoryPatch)
    (expected : Nat) : Except MemoryFault MemoryStore := do
  require (old.revision = expected)
    (.memory .revisionConflict "Memory was modified; refresh before editing" 409)
  require (validMemory (patch.content.getD old.content) (patch.expiresAt.getD none) old.confidence)
    .validation
  stored (w.compareAndSet old.id (some expected) (patch.apply old))

def reviewMemory (w : MemoryStore) (identity : Identity) (access : AccessCheck) (id : MemoryId)
    (decision : String) (expected : Nat) : Except MemoryFault MemoryStore := do
  require (decision ∈ ["accepted", "rejected", "accept", "reject"])
    (.memory .invalidDecision "Review decision must accept or reject a proposal" 422)
  let r ← getMemory w identity access id
  require (r.reviewState = .proposed)
    (.memory .invalidMemoryState "Only proposed memory can be reviewed" 409)
  let state := if decision ∈ ["accepted", "accept"] then ReviewState.accepted else .rejected
  replaceMemory w r { reviewState := some state } expected

/-- A patch of `update` has no review state. -/
def updateMemory (w : MemoryStore) (identity : Identity) (access : AccessCheck) (id : MemoryId)
    (patch : MemoryPatch) (expected : Nat) : Except MemoryFault MemoryStore := do
  require (patch.unsupported = false ∧ patch.reviewState = none)
    (.memory .immutableMemoryField "Only content, source references and expiry may be edited" 422)
  let r ← getMemory w identity access id
  replaceMemory w r patch expected

def deleteMemory (w : MemoryStore) (identity : Identity) (access : AccessCheck) (id : MemoryId)
    (expected : Nat) : Except MemoryFault MemoryStore := do
  let r ← getMemory w identity access id
  replaceMemory w r { reviewState := some .deleted } expected

/-! ## Listing and retrieving -/

/-- The key `(created_at, id)`. -/
def MemoryRecord.Before (a b : MemoryRecord) : Prop :=
  a.createdAt < b.createdAt ∨ (a.createdAt = b.createdAt ∧ a.id ≤ b.id)

instance : DecidableRel MemoryRecord.Before := fun a b =>
  inferInstanceAs (Decidable (a.createdAt < b.createdAt ∨ (a.createdAt = b.createdAt ∧ a.id ≤ b.id)))

structure MemoryPage where
  items : List MemoryRecord
  nextCursor : Option Int

/-- The records that `list` goes through. -/
def MemoryRecord.Visible (owner : OwnerId) (workspace : WorkspaceId) (r : MemoryRecord) : Prop :=
  r.owner = owner ∧ r.reviewState ≠ .deleted ∧ (r.scope = .workspace → r.workspace = workspace)

instance (owner : OwnerId) (workspace : WorkspaceId) :
    DecidablePred (MemoryRecord.Visible owner workspace) := fun _ =>
  inferInstanceAs (Decidable (_ ∧ _ ∧ _))

/-- The records of a listing in order.  `keep` is the filter of the caller. -/
def listedMemory (w : MemoryStore) (owner : OwnerId) (workspace : WorkspaceId)
    (keep : MemoryRecord → Bool) : List MemoryRecord :=
  ((w.list.filter (MemoryRecord.Visible owner workspace)).filter keep).insertionSort
    MemoryRecord.Before

/-- `MemoryService.list`. -/
def listMemory (w : MemoryStore) (identity : Identity) (access : AccessCheck)
    (workspace : WorkspaceId) (keep : MemoryRecord → Bool) (cursor : Option Int) (limit : Int) :
    Except MemoryFault MemoryPage := do
  checkAccess access workspace
  let records := listedMemory w identity.owner workspace keep
  let offset := cursor.getD 0
  require (0 ≤ offset ∧ 1 ≤ limit ∧ limit ≤ 100)
    (.memory .invalidCursor "Memory pagination cursor or limit is invalid" 422)
  return {
    items := (records.drop offset.toNat).take limit.toNat
    nextCursor := if offset + limit < records.length then some (offset + limit) else none }

/-- The loop over the pages.  `fuel` bounds their number. -/
def readPages (page : Option Int → Except MemoryFault MemoryPage) :
    Nat → Option Int → Except MemoryFault (List MemoryRecord)
  | 0, _ => .ok []
  | fuel + 1, cursor => do
      let read ← page cursor
      match read.nextCursor with
      | none => .ok read.items
      | some next => do
          let later ← readPages page fuel (some next)
          .ok (read.items ++ later)

/-- How texts are read. -/
structure TextRules where
  /-- `re.findall(r"\w+", text)` -/
  words : List Char → List (List Char)
  /-- `str.lower` -/
  lower : List Char → List Char

def isCjk (c : Char) : Bool := 0x4e00 ≤ c.toNat ∧ c.toNat ≤ 0x9fff

/-- The pairs of neighbours that start with a CJK character. -/
def cjkPairs : List Char → List (List Char)
  | a :: b :: rest => if isCjk a then [a, b] :: cjkPairs (b :: rest) else cjkPairs (b :: rest)
  | _ => []

/-- The set of terms of a query. -/
def TextRules.terms (text : TextRules) (query : List Char) : List (List Char) :=
  (text.words (text.lower query) ++ cjkPairs query).dedup

def TextRules.score (text : TextRules) (query : List Char) (r : MemoryRecord) : Nat :=
  (text.terms query).countP fun term => decide (term <:+: text.lower r.content)

def MemoryRecord.Expired (now : Time) (r : MemoryRecord) : Prop := ∃ t ∈ r.expiresAt, t ≤ now

instance (now : Time) : DecidablePred (MemoryRecord.Expired now) := fun r =>
  inferInstanceAs (Decidable (∃ t ∈ r.expiresAt, t ≤ now))

/-- The order of the key `(pinned, score, created_at)`, the greatest first. -/
def Ranks (a b : Nat × MemoryRecord) : Prop :=
  let pinned (e : Nat × MemoryRecord) := if e.2.kind = .pinned then 1 else 0
  pinned b < pinned a ∨ (pinned b = pinned a ∧
    (b.1 < a.1 ∨ (b.1 = a.1 ∧ b.2.createdAt ≤ a.2.createdAt)))

instance : DecidableRel Ranks := fun _ _ => inferInstanceAs (Decidable (_ ∨ _))

/-- What is made of the candidates. -/
def rankMemory (text : TextRules) (query : List Char) (limit : Int) (now : Time)
    (candidates : List MemoryRecord) : List MemoryRecord :=
  let scored := (candidates.filter fun r => ¬r.Expired now).map fun r => (text.score query r, r)
  let sorted := scored.insertionSort Ranks
  ((sorted.filter fun e => e.1 ≠ 0 ∨ e.2.kind = .pinned).map Prod.snd).take
    (max 1 (min limit 100)).toNat

/-- `MemoryService.retrieve`. -/
def retrieveMemory (text : TextRules) (w : MemoryStore) (identity : Identity) (access : AccessCheck)
    (workspace : WorkspaceId) (query : List Char) (limit : Int) (now : Time) :
    Except MemoryFault (List MemoryRecord) := do
  let accepted (r : MemoryRecord) : Bool := r.reviewState = .accepted
  let candidates ← readPages
    (fun cursor => listMemory w identity access workspace accepted cursor 100)
    (w.list.length + 1) none
  return rankMemory text query limit now candidates

/-! ## Runs -/

inductive MemoryAction where
  | propose (identity : Identity) (access : AccessCheck) (workspace : WorkspaceId)
      (content : List Char) (sourceRefs : Json) (fields : ProposalFields) (fresh : MemoryId)
      (now : Time)
  | review (identity : Identity) (access : AccessCheck) (id : MemoryId) (decision : String)
      (expected : Nat)
  | update (identity : Identity) (access : AccessCheck) (id : MemoryId) (patch : MemoryPatch)
      (expected : Nat)
  | delete (identity : Identity) (access : AccessCheck) (id : MemoryId) (expected : Nat)

def MemoryAction.perform (w : MemoryStore) : MemoryAction → Except MemoryFault MemoryStore
  | .propose identity access workspace content sourceRefs fields fresh now =>
      proposeMemory w identity access workspace content sourceRefs fields fresh now
  | .review identity access id decision expected => reviewMemory w identity access id decision expected
  | .update identity access id patch expected => updateMemory w identity access id patch expected
  | .delete identity access id expected => deleteMemory w identity access id expected

/-- The id of a new record is a new one. -/
def MemoryAction.Fresh (w : MemoryStore) : MemoryAction → Prop
  | .propose _ _ _ _ _ _ fresh _ => w.get fresh = none
  | _ => True

/-- A call that raises leaves the store as it is. -/
def MemoryAction.next (w : MemoryStore) (a : MemoryAction) : MemoryStore :=
  match a.perform w with
  | .ok w' => w'
  | .error _ => w

def memorySystem : System MemoryStore MemoryAction where
  init w := w = {}
  step w a w' := a.Fresh w ∧ w' = a.next w

end MiHarness

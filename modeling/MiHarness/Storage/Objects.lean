import MiHarness.Library.Checked
import MiHarness.Library.System
import MiHarness.Library.Table
import MiHarness.Library.Utf8
import MiHarness.Core.Contracts

/-!
# The artifact store

`put_stream` writes an object to a temporary file while it hashes it, moves the file to a place that is
named by the hash, verifies what is there, and enters a row for it.  An object that is there already is
kept, and rows of one owner and workspace share it.  `read_range` verifies an object before it reads it.

Threads put and read side by side, so a call is cut at each thing it does to the directory.  Between two of
its pieces other calls go on, the process may stop, and objects may be damaged from outside.  A temporary
file is of one call, and is kept with it.
-/

namespace MiHarness

open Library Library.Utf8

/-! ## Rows -/

/-- `objects/{domain}/{hashed[:2]}/{hashed}`. -/
structure StorageKey where
  domain : Hash
  hashed : Hash
deriving DecidableEq, Repr

structure ArtifactRow where
  ownerId : OwnerId
  workspaceId : WorkspaceId
  contentHash : Hash
  mimeType : String
  sizeBytes : Nat
  provenanceRef : String
  storageKey : StorageKey
  displayName : String
  createdAt : Time
deriving DecidableEq, Repr

structure ObjectHost where
  /-- `sha256` of bytes. -/
  digest : Bytes → Hash
  /-- `sha256` of the owner and the workspace. -/
  domain : OwnerId → WorkspaceId → Hash
  maxBytes : Nat
  /-- What `validate_image` raises, after the image library has read the bytes. -/
  validateImage : Bytes → String → Option HarnessError
  workspaceOwner : WorkspaceId → Option OwnerId
  /-- `Path(display_name).name`. -/
  baseName : String → String

/-- The errors of the store, and those of the system. -/
inductive ObjectFault where
  | harness (error : HarnessError)
  | os
deriving DecidableEq

def corrupt (message : String) : ObjectFault :=
  .harness { code := .artifactCorrupt, message, status := 503 }

def isImage (mimeType : String) : Bool := "image/".toList.isPrefixOf mimeType.toList

/-- `_verify` up to the size. -/
def checkSize (objects : Table StorageKey Bytes) (key : StorageKey) (size : Nat) : Except ObjectFault Unit :=
  require ((objects.get? key).any (·.length = size) = true) (corrupt "产物对象缺失或大小不匹配")

/-- The rest of `_verify`. -/
def ObjectHost.checkDigest (host : ObjectHost) (objects : Table StorageKey Bytes) (key : StorageKey)
    (digest : Hash) : Except ObjectFault Unit := do
  let content ← orThrow (objects.get? key) .os
  require (host.digest content = digest) (corrupt "产物完整性校验失败")

/-- `_verify` of the object of a row. -/
def ObjectHost.verify (host : ObjectHost) (objects : Table StorageKey Bytes) (row : ArtifactRow) :
    Except ObjectFault Unit := do
  checkSize objects row.storageKey row.sizeBytes
  host.checkDigest objects row.storageKey row.contentHash

/-- `integrity`: the artifacts whose object is refused. -/
def ObjectHost.integrity (host : ObjectHost) (objects : Table StorageKey Bytes)
    (rows : Table ArtifactId ArtifactRow) : List ArtifactId :=
  (rows.select fun _ row => (host.verify objects row).toOption.isNone).map Prod.fst

/-! ## Putting -/

inductive PutPhase where
  /-- Chunks come. -/
  | receiving
  /-- The object is on its way to its place: it is looked for, or moved there. -/
  | placing | moving
  /-- What is there is verified. -/
  | sizing | hashing
  | recording
deriving DecidableEq, Repr

structure PutCall where
  ownerId : OwnerId
  workspaceId : WorkspaceId
  mimeType : String
  provenance : String
  displayName : String
  /-- The temporary file. -/
  written : Bytes := []
  phase : PutPhase := .receiving

namespace PutCall

variable (host : ObjectHost) (call : PutCall)

def hashed : Hash := host.digest call.written

def key : StorageKey := ⟨host.domain call.ownerId call.workspaceId, call.hashed host⟩

def row (now : Time) : ArtifactRow where
  ownerId := call.ownerId
  workspaceId := call.workspaceId
  contentHash := call.hashed host
  mimeType := call.mimeType
  sizeBytes := call.written.length
  provenanceRef := call.provenance
  storageKey := call.key host
  displayName := host.baseName call.displayName
  createdAt := now

def maxImageBytes : Nat := 10 * 1024 * 1024

/-- The loop of `put_stream` for one chunk. -/
def receive (chunk : Bytes) : Except ObjectFault PutCall := do
  let written := call.written ++ chunk
  require (written.length ≤ host.maxBytes)
    (.harness { code := .artifactTooLarge, message := "产物超过配置大小上限", status := 413 })
  require (isImage call.mimeType = true → written.length ≤ maxImageBytes)
    (.harness { code := .server "IMAGE_TOO_LARGE", message := "图片超过 10 MiB 上限", status := 413 })
  .ok { call with written }

/-- No more chunks come. -/
def finish : Except ObjectFault PutCall :=
  match if isImage call.mimeType then host.validateImage call.written call.mimeType else none with
  | some e => .error (.harness e)
  | none => .ok { call with phase := .placing }

end PutCall

/-! ## Reading -/

inductive ReadPhase where
  | sizing | hashing | reading
deriving DecidableEq, Repr

structure ReadCall where
  artifactId : ArtifactId
  row : ArtifactRow
  offset : Nat
  length : Nat
  phase : ReadPhase := .sizing
deriving DecidableEq, Repr

/-- What a read has returned. -/
structure Served where
  artifactId : ArtifactId
  ownerId : OwnerId
  offset : Nat
  length : Nat
  bytes : Bytes
deriving DecidableEq, Repr

/-- The content that a row was entered for. -/
structure Uploaded where
  artifactId : ArtifactId
  ownerId : OwnerId
  content : Bytes
deriving DecidableEq, Repr

/-! ## Runs -/

/-- The directory, the table and the calls, with what has been entered and returned. -/
structure ObjectWorld where
  objects : Table StorageKey Bytes := Table.empty
  rows : Table ArtifactId ArtifactRow := Table.empty
  puts : Nat → Option PutCall := fun _ => none
  reads : Nat → Option ReadCall := fun _ => none
  uploaded : List Uploaded := []
  served : List Served := []

namespace ObjectWorld

variable (host : ObjectHost) (w : ObjectWorld)

def setPut (i : Nat) (call : Option PutCall) : ObjectWorld :=
  { w with puts := Function.update w.puts i call }

def setRead (i : Nat) (call : Option ReadCall) : ObjectWorld :=
  { w with reads := Function.update w.reads i call }

/-- `store.artifact` and the checks of `read_range` and `path` before the object. -/
def openRead (artifactId : ArtifactId) (ownerId : OwnerId) (offset length : Int) :
    Except ObjectFault ReadCall := do
  require (0 ≤ offset ∧ 0 ≤ length ∧ length ≤ host.maxBytes)
    (.harness { code := .invalidRange, message := "产物读取范围无效", status := 422 })
  let missing : ObjectFault := .harness { code := .notFound, message := "产物不存在", status := 404 }
  let row ← orThrow (w.rows.get? artifactId) missing
  require (row.ownerId = ownerId) missing
  .ok { artifactId, row, offset := offset.toNat, length := length.toNat }

/-- A put goes on, or raises. -/
def afterPut (i : Nat) (result : Except ObjectFault PutCall) : ObjectWorld :=
  w.setPut i result.toOption

/-- The next piece of a put. -/
def proceed (i : Nat) (call : PutCall) (fresh : ArtifactId) (now : Time) : ObjectWorld :=
  match call.phase with
  | .receiving => w.afterPut i (call.finish host)
  | .placing =>
      let phase := if (w.objects.get? (call.key host)).isSome then .sizing else .moving
      w.setPut i (some { call with phase })
  | .moving =>
      { w.setPut i (some { call with phase := .sizing }) with
        objects := w.objects.put (call.key host) call.written }
  | .sizing =>
      w.afterPut i do
        checkSize w.objects (call.key host) call.written.length
        .ok { call with phase := .hashing }
  | .hashing =>
      w.afterPut i do
        host.checkDigest w.objects (call.key host) (call.hashed host)
        .ok { call with phase := .recording }
  | .recording =>
      match w.rows.insert? fresh (call.row host now) with
      | some rows => { w.setPut i none with
          rows, uploaded := ⟨fresh, call.ownerId, call.written⟩ :: w.uploaded }
      | none => w.setPut i none

/-- A read goes on, or raises. -/
def afterRead (i : Nat) (result : Except ObjectFault ReadCall) : ObjectWorld :=
  w.setRead i result.toOption

/-- The next piece of a read. -/
def serve (i : Nat) (call : ReadCall) : ObjectWorld :=
  match call.phase with
  | .sizing =>
      w.afterRead i do
        checkSize w.objects call.row.storageKey call.row.sizeBytes
        .ok { call with phase := .hashing }
  | .hashing =>
      w.afterRead i do
        host.checkDigest w.objects call.row.storageKey call.row.contentHash
        .ok { call with phase := .reading }
  | .reading =>
      match w.objects.get? call.row.storageKey with
      | some content => { w.setRead i none with served :=
          ⟨call.artifactId, call.row.ownerId, call.offset, call.length,
            (content.drop call.offset).take call.length⟩ :: w.served }
      | none => w.setRead i none

end ObjectWorld

inductive ObjectAction where
  | put (i : Nat) (ownerId : OwnerId) (workspaceId : WorkspaceId) (mimeType provenance displayName : String)
  | chunk (i : Nat) (bytes : Bytes)
  | proceed (i : Nat) (fresh : ArtifactId) (now : Time)
  | read (i : Nat) (artifactId : ArtifactId) (ownerId : OwnerId) (offset length : Int)
  | serve (i : Nat)
  /-- The system raises in a call. -/
  | fail (i : Nat)
  /-- The transaction that a row was entered in is rolled back. -/
  | rollback (artifactId : ArtifactId)
  /-- The process stops. -/
  | crash
  /-- An object is changed or removed from outside. -/
  | damage (key : StorageKey) (content : Option Bytes)

def ObjectWorld.next (host : ObjectHost) (w : ObjectWorld) : ObjectAction → Option ObjectWorld
  | .put i ownerId workspaceId mimeType provenance displayName =>
      match w.puts i with
      | some _ => none
      | none =>
          if host.workspaceOwner workspaceId = some ownerId then
            some (w.setPut i (some { ownerId, workspaceId, mimeType, provenance, displayName }))
          else some w
  | .chunk i bytes =>
      match w.puts i with
      | some call => if call.phase = .receiving then some (w.afterPut i (call.receive host bytes)) else none
      | none => none
  | .proceed i fresh now => (w.puts i).map fun call => w.proceed host i call fresh now
  | .read i artifactId ownerId offset length =>
      match w.reads i with
      | some _ => none
      | none => some (w.afterRead i (w.openRead host artifactId ownerId offset length))
  | .serve i => (w.reads i).map fun call => w.serve host i call
  | .fail i => some ((w.setPut i none).setRead i none)
  | .rollback artifactId => some { w with rows := w.rows.erase artifactId }
  | .crash => some { w with puts := fun _ => none, reads := fun _ => none }
  | .damage key content => some { w with
      objects := match content with
        | some content => w.objects.put key content
        | none => w.objects.erase key }

/-- The runs of the store. -/
def objectSystem (host : ObjectHost) : System ObjectWorld ObjectAction :=
  System.ofNext (fun w => w = {}) (ObjectWorld.next host)

/-- No object is damaged between the verification of a read and the read. -/
def ObjectWorld.Apart (w : ObjectWorld) : ObjectAction → Prop
  | .damage key _ => ∀ i call, w.reads i = some call → call.phase = .reading → call.row.storageKey ≠ key
  | _ => True

/-- No object is damaged at all. -/
def ObjectWorld.Undamaged (_ : ObjectWorld) : ObjectAction → Prop
  | .damage .. => False
  | _ => True

end MiHarness

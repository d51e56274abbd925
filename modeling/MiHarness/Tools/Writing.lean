import MiHarness.Core.Json
import MiHarness.Library.Effects
import MiHarness.Scheduler.Terminal
import MiHarness.Tools.Calls
import MiHarness.Tools.Reading

/-!
# Writing files

`write_file` replaces a file whose hash is the expected one, and then stores what it has written as an
artifact.  It does not await anything, and no other program touches the file meanwhile.

An error of the artifact store is classified as every error of the harness is: the operation has failed.
The file has been replaced by then (`write_agrees`).
-/

namespace MiHarness

open Library Library.Utf8

/-! ## Where a write can raise -/

/-- The calls of a write that can raise, in their order. -/
inductive WritePoint where
  | patchPolicy | patchStat | patchRead
  | policy | parent | encode | guards | policyAgain | hash | temporary
  | temporaryWrite | ledger | hashAgain | policyLast | replace | unlink
  | workspace | objectTemporary | objectWrite | objectDirectory | objectReplace | objectStat
  | objectRead | objectDiscard | artifactRow | objectUnlink | reference
deriving DecidableEq, Repr

/-- The points at which `policy.path` checks the path. -/
def WritePoint.checksPath : WritePoint → Bool
  | .patchPolicy | .policy | .policyAgain | .policyLast => true
  | _ => false

/-- What a write finds outside: what each of its calls raises, whether the parent directory exists and
whether the workspace is the owner's, and the artifact store. -/
structure WriteHost where
  raises : WritePoint → Option FileError
  /-- Of these calls only the checks of the path raise errors of the harness. -/
  plain : ∀ point e, raises point = some (.harness e) → point.checksPath = true
  resolved : String
  parentExists : Bool
  ownsWorkspace : Bool
  digest : Bytes → Hash
  maxBytes : Nat

/-- What a write changes: the file, the objects of the owner by their hash, the rows of artifacts and
the references to them, and the database of the runs. -/
structure WriteWorld where
  target : Option Bytes
  objects : Hash → Option Bytes
  artifacts : List ArtifactRef
  references : List ArtifactId
  store : Store

abbrev WriteM := EStateM FileError WriteWorld

def WriteHost.reach (host : WriteHost) (point : WritePoint) : WriteM Unit :=
  raise (host.raises point)

/-- Refuse with an error of the harness unless the condition holds. -/
def check (c : Prop) [Decidable c] (e : HarnessError) : WriteM Unit := ensure c (.harness e)

/-! ## The artifact store -/

def workspaceMissing : HarnessError :=
  { code := .notFound, message := "工作区不存在", status := 404 }

def artifactTooLarge : HarnessError :=
  { code := .artifactTooLarge, message := "产物超过配置大小上限", status := 413 }

def objectMissing : HarnessError :=
  { code := .artifactCorrupt, message := "产物对象缺失或大小不匹配", status := 503 }

def objectCorrupt : HarnessError :=
  { code := .artifactCorrupt, message := "产物完整性校验失败", status := 503 }

/-- `_verify`. -/
def WriteHost.verify (host : WriteHost) (digest : Hash) (size : Nat) : WriteM Unit := do
  host.reach .objectStat
  let object := (← get).objects digest
  check (object.any (·.length = size) = true) objectMissing
  host.reach .objectRead
  check (object.map host.digest = some digest) objectCorrupt

/-- An object that is there already is verified, and another one is put in its place. -/
def WriteHost.keepObject (host : WriteHost) (raw : Bytes) : WriteM Unit := do
  let hashed := host.digest raw
  if ((← get).objects hashed).isSome = true then
    host.verify hashed raw.length
    host.reach .objectDiscard
  else
    host.reach .objectReplace
    modify fun w => { w with objects := fun h => if h = hashed then some raw else w.objects h }
    host.verify hashed raw.length

/-- The body of `put_stream` with its temporary file, for one chunk of type `text/plain`. -/
def WriteHost.storeObject (host : WriteHost) (fresh : ArtifactId) (raw : Bytes) :
    WriteM ArtifactRef := do
  check (raw.length ≤ host.maxBytes) artifactTooLarge
  host.reach .objectWrite
  host.reach .objectDirectory
  host.keepObject raw
  host.reach .artifactRow
  let row : ArtifactRef :=
    { artifactId := fresh, contentHash := host.digest raw, mimeType := "text/plain"
      sizeBytes := raw.length }
  modify fun w => { w with artifacts := w.artifacts ++ [row] }
  return row

def WriteHost.putBytes (host : WriteHost) (fresh : ArtifactId) (raw : Bytes) :
    WriteM ArtifactRef := do
  host.reach .workspace
  check (host.ownsWorkspace = true) workspaceMissing
  host.reach .objectTemporary
  tryFinally (host.storeObject fresh raw) (host.reach .objectUnlink)

/-- `ArtifactStore.writer`. -/
def WriteHost.writer (host : WriteHost) (fresh : ArtifactId) (raw : Bytes) : WriteM ArtifactRef := do
  let ref ← host.putBytes fresh raw
  host.reach .reference
  modify fun w => { w with references := w.references ++ [ref.artifactId] }
  return ref

/-! ## `write_file` -/

structure WriteArgs where
  path : String
  content : List Char
  expectedHash : Option Hash

structure WriteResult where
  summary : String
  path : String
  sha256 : Hash
  size : Nat
  artifactRefs : List ArtifactRef

def parentMissing : HarnessError :=
  { code := .parentMissing, message := "父目录不存在；请先选择现有目录", status := 422 }

def fileTooLarge : HarnessError :=
  { code := .fileTooLarge, message := "写入超过 16MB 限制", status := 413 }

def versionConflict (message : String) : HarnessError :=
  { code := .fileVersionConflict, message }

/-- `_hash`. -/
def WriteHost.hash (host : WriteHost) (point : WritePoint) : WriteM (Option Hash) := do
  host.reach point
  return (← get).target.map host.digest

/-- The executor records its operation's hashes. -/
def annotate (ctx : ExecutionContext) (oid : OperationId) (a : Annotation) (now : Time) :
    WriteM Unit := fun w =>
  match annotateOperation w.store ctx oid a now with
  | .ok store => .ok () { w with store }
  | .error e => .error (.harness e) w

/-- `write`, up to its temporary file: the bytes and the hash of the file. -/
def WriteHost.openWrite (host : WriteHost) (args : WriteArgs) : WriteM (Option Hash) := do
  host.reach .policy
  host.reach .parent
  check (host.parentExists = true) parentMissing
  host.reach .encode
  check ((encode args.content).length ≤ 16 * 1024 * 1024) fileTooLarge
  host.reach .guards
  host.reach .policyAgain
  let before ← host.hash .hash
  check (before = args.expectedHash) (versionConflict "文件版本已变化，必须重新读取后修改")
  host.reach .temporary
  return before

/-- The temporary file is written, recorded and put in the place of the target. -/
def WriteHost.commit (host : WriteHost) (ctx : ExecutionContext) (oid : OperationId)
    (before : Option Hash) (raw : Bytes) (now : Time) : WriteM Unit := do
  host.reach .temporaryWrite
  host.reach .ledger
  annotate ctx oid (.write host.resolved before (host.digest raw)) now
  let current ← host.hash .hashAgain
  check (current = before) (versionConflict "提交前文件被其他程序修改")
  host.reach .policyLast
  host.reach .replace
  modify fun w => { w with target := some raw }

def WriteHost.write (host : WriteHost) (ctx : ExecutionContext) (oid : OperationId)
    (args : WriteArgs) (fresh : ArtifactId) (now : Time) : WriteM WriteResult := do
  let before ← host.openWrite args
  let raw := encode args.content
  tryFinally (host.commit ctx oid before raw now) (host.reach .unlink)
  let ref ← host.writer fresh raw
  return { summary := "已写入 " ++ args.path, path := args.path, sha256 := host.digest raw
           size := raw.length, artifactRefs := [ref] }

/-! ## Outcomes -/

def writeFileSpec : ToolSpec :=
  { id := .writeFile, version := "1", effect := .workspaceWrite
    requiredCapabilities := ["file_write"] }

/-- The clause of `execute` that catches it. -/
def FileError.failure : FileError → Failure
  | .harness e => .raised e
  | .os | .other => .other

def WriteResult.data (r : WriteResult) : JsonData :=
  .object [("path", .string r.path), ("sha256", .string r.sha256), ("size", .int r.size)]

/-- The result of `execute`, and what the write leaves. -/
def WriteHost.execute (host : WriteHost) (ctx : ExecutionContext) (oid : OperationId)
    (args : WriteArgs) (fresh : ArtifactId) (now : Time) (w : WriteWorld) : ToolResult × WriteWorld :=
  match host.write ctx oid args fresh now w with
  | .ok r t =>
      ({ operationId := oid, status := .succeeded, summary := r.summary
         structuredData := canonicalJson r.data }, t)
  | .error e t => (writeFileSpec.failedResult oid e.failure, t)

/-! ## Rules for the calls -/

variable {host : WriteHost} {ctx : ExecutionContext} {oid : OperationId} {now : Time}
  {w : WriteWorld} {fresh : ArtifactId} {raw : Bytes}

variable {α : Type} {f : Unit → WriteM α} {Q : α → WriteWorld → Prop}
  {E : FileError → WriteWorld → Prop} {point : WritePoint}

theorem wp_reach (raised : ∀ e, host.raises point = some e → E e w)
    (passes : host.raises point = none → wp (f ()) Q E w) : wp (host.reach point >>= f) Q E w :=
  wp_raise_bind raised passes

/-- A call that comes last. -/
theorem wp_reach_last {Q : Unit → WriteWorld → Prop}
    (raised : ∀ e, host.raises point = some e → E e w)
    (passes : host.raises point = none → Q () w) : wp (host.reach point) Q E w :=
  wp_raise raised passes

theorem wp_check {c : Prop} [Decidable c] {e : HarnessError} (refused : ¬c → E (.harness e) w)
    (passes : c → wp (f ()) Q E w) : wp (check c e >>= f) Q E w :=
  wp_ensure_bind refused passes

theorem wp_check_last {c : Prop} [Decidable c] {e : HarnessError} {Q : Unit → WriteWorld → Prop}
    (refused : ¬c → E (.harness e) w) (passes : c → Q () w) : wp (check c e) Q E w :=
  wp_ensure refused passes

theorem wp_hash {f : Option Hash → WriteM α} (raised : ∀ e, host.raises point = some e → E e w)
    (passes : host.raises point = none → wp (f (w.target.map host.digest)) Q E w) :
    wp (host.hash point >>= f) Q E w := by
  rw [wp_bind, WriteHost.hash]
  exact wp_reach raised passes

/-- The error of a call that does not check the path is no error of the harness. -/
theorem WriteHost.not_harness {point : WritePoint} (other : point.checksPath = false) {e : FileError}
    (raised : host.raises point = some e) (h : HarnessError) : e ≠ .harness h := by
  rintro rfl
  exact Bool.false_ne_true (other.symm.trans (host.plain point h raised))

/-- An error with which an operation is recorded as failed. -/
def FileError.fails (e : FileError) : Prop := ∃ h, e = .harness h ∧ h.code ≠ .processExitUnknown

theorem WriteHost.not_fails {point : WritePoint} (other : point.checksPath = false) {e : FileError}
    (raised : host.raises point = some e) : ¬e.fails :=
  fun ⟨h, same, _⟩ => not_harness other raised h same

theorem wp_annotate {a : Annotation}
    (refused : ∀ e, annotateOperation w.store ctx oid a now = .error e → E (.harness e) w)
    (passes : ∀ store, annotateOperation w.store ctx oid a now = .ok store →
      wp (f ()) Q E { w with store }) : wp (annotate ctx oid a now >>= f) Q E w := by
  rw [wp_bind]
  unfold wp annotate
  cases h : annotateOperation w.store ctx oid a now with
  | ok store => exact passes store h
  | error e => exact refused e h

/-! ## Up to the replacement -/

/-- The calls up to the temporary file pass, and the file is the expected one. -/
structure WriteHost.Opens (host : WriteHost) (args : WriteArgs) (w : WriteWorld) : Prop where
  opening : ∀ point ∈ [WritePoint.policy, .parent, .encode, .guards, .policyAgain, .hash, .temporary],
    host.raises point = none
  parent : host.parentExists = true
  small : (encode args.content).length ≤ 16 * 1024 * 1024
  version : w.target.map host.digest = args.expectedHash

/-- The calls of the replacement pass, and the operation takes its hashes. -/
structure WriteHost.Commits (host : WriteHost) (ctx : ExecutionContext) (oid : OperationId)
    (before : Option Hash) (raw : Bytes) (now : Time) (w : WriteWorld) : Prop where
  replacing : ∀ point ∈ [WritePoint.temporaryWrite, .ledger, .hashAgain, .policyLast, .replace],
    host.raises point = none
  recorded : ∃ store, annotateOperation w.store ctx oid
    (.write host.resolved before (host.digest raw)) now = .ok store

theorem WriteHost.openWrite_wp (host : WriteHost) (args : WriteArgs) (w : WriteWorld) :
    wp (host.openWrite args) (fun before t => t = w ∧ before = args.expectedHash ∧ host.Opens args w)
      (fun _ t => t = w ∧ ¬host.Opens args w) w := by
  have raised : ∀ point ∈ [WritePoint.policy, .parent, .encode, .guards, .policyAgain, .hash,
      .temporary], ∀ e, host.raises point = some e → w = w ∧ ¬host.Opens args w := by
    refine fun point mem e raised => ⟨rfl, fun opens => ?_⟩
    cases raised.symm.trans (opens.opening point mem)
  rw [openWrite]
  refine wp_reach (raised _ (by decide)) fun policy => ?_
  refine wp_reach (raised _ (by decide)) fun parent => ?_
  refine wp_check (fun missing => ⟨rfl, fun opens => missing opens.parent⟩) fun present => ?_
  refine wp_reach (raised _ (by decide)) fun encodes => ?_
  refine wp_check (fun large => ⟨rfl, fun opens => large opens.small⟩) fun small => ?_
  refine wp_reach (raised _ (by decide)) fun guards => ?_
  refine wp_reach (raised _ (by decide)) fun again => ?_
  refine wp_hash (raised _ (by decide)) fun hash => ?_
  refine wp_check (fun other => ⟨rfl, fun opens => other opens.version⟩) fun version => ?_
  refine wp_reach (raised _ (by decide)) fun temporary => ?_
  refine ⟨rfl, version, ?_, present, small, version⟩
  simp [policy, parent, encodes, guards, again, hash, temporary]

theorem WriteHost.commit_wp (host : WriteHost) (ctx : ExecutionContext) (oid : OperationId)
    (raw : Bytes) (now : Time) (w : WriteWorld) :
    wp (host.commit ctx oid (w.target.map host.digest) raw now)
      (fun _ t => t.target = some raw ∧ t.objects = w.objects ∧
        host.Commits ctx oid (w.target.map host.digest) raw now w)
      (fun _ t => t.target = w.target ∧
        ¬host.Commits ctx oid (w.target.map host.digest) raw now w) w := by
  have raised : ∀ point ∈ [WritePoint.temporaryWrite, .ledger, .hashAgain, .policyLast, .replace],
      ∀ t : WriteWorld, t.target = w.target → ∀ e, host.raises point = some e →
        t.target = w.target ∧ ¬host.Commits ctx oid (w.target.map host.digest) raw now w := by
    refine fun point mem t same e raised => ⟨same, fun commits => ?_⟩
    cases raised.symm.trans (commits.replacing point mem)
  rw [commit]
  refine wp_reach (raised _ (by decide) w rfl) fun written => ?_
  refine wp_reach (raised _ (by decide) w rfl) fun ledger => ?_
  refine wp_annotate (fun e refused => ⟨rfl, fun commits => ?_⟩) fun store recorded => ?_
  · obtain ⟨store, recorded⟩ := commits.recorded
    cases refused.symm.trans recorded
  refine wp_hash (raised _ (by decide) _ rfl) fun hash => ?_
  refine wp_check (fun other => absurd rfl other) fun _ => ?_
  refine wp_reach (raised _ (by decide) _ rfl) fun policy => ?_
  refine wp_reach (raised _ (by decide) _ rfl) fun replace => ?_
  refine ⟨rfl, rfl, ?_, store, recorded⟩
  simp [written, ledger, hash, policy, replace]

/-! ## After the replacement -/

/-- The object that the artifact store has for these bytes is not what it was, and that is found. -/
def WriteHost.Corrupt (host : WriteHost) (objects : Hash → Option Bytes) (raw : Bytes) : Prop :=
  ∃ object, objects (host.digest raw) = some object ∧ host.raises .objectStat = none ∧
    (object.length ≠ raw.length ∨
      host.raises .objectRead = none ∧ host.digest object ≠ host.digest raw)

/-- The artifact store refuses the bytes with an error of the harness: the workspace is not the owner's,
they are more than it takes, or it has a corrupt object for them. -/
def WriteHost.Refuses (host : WriteHost) (objects : Hash → Option Bytes) (raw : Bytes) : Prop :=
  host.raises .workspace = none ∧ (host.ownsWorkspace = false ∨
    host.raises .objectTemporary = none ∧ host.raises .objectUnlink = none ∧
      (host.maxBytes < raw.length ∨ host.raises .objectWrite = none ∧
        host.raises .objectDirectory = none ∧ host.Corrupt objects raw))

theorem fails_harness {e : HarnessError} (known : e.code ≠ .processExitUnknown) :
    (FileError.harness e).fails := ⟨e, rfl, known⟩

/-- What the verification of an object finds wrong. -/
theorem WriteHost.verify_wp (host : WriteHost) {object : Bytes} {digest : Hash} {size : Nat}
    (found : w.objects digest = some object) : wp (host.verify digest size)
      (fun _ t => t = w ∧ object.length = size ∧ host.digest object = digest)
      (fun e t => t = w ∧ (e.fails ↔ host.raises .objectStat = none ∧ (object.length ≠ size ∨
        host.raises .objectRead = none ∧ host.digest object ≠ digest))) w := by
  rw [verify]
  refine wp_reach (fun e raised => ⟨rfl, ?_⟩) fun stat => ?_
  · refine iff_of_false (not_fails rfl raised) fun h => ?_
    cases raised.symm.trans h.1
  rw [wp_bind, wp_get, found]
  refine wp_check (fun wrong => ⟨rfl, iff_of_true (fails_harness (by decide)) ⟨stat, .inl ?_⟩⟩)
    fun size' => ?_
  · simpa using wrong
  have same : object.length = size := by simpa using size'
  refine wp_reach (fun e raised => ⟨rfl, ?_⟩) fun read => ?_
  · refine iff_of_false (not_fails rfl raised) fun h => ?_
    rcases h.2 with other | other
    · exact other same
    · cases raised.symm.trans other.1
  refine wp_check_last (fun wrong => ⟨rfl, iff_of_true (fails_harness (by decide)) ?_⟩) fun right => ?_
  · exact ⟨stat, .inr ⟨read, fun right => wrong (congrArg some right)⟩⟩
  · exact ⟨rfl, same, Option.some.inj right⟩

theorem WriteHost.keepObject_wp (host : WriteHost) (raw : Bytes) (w : WriteWorld) :
    wp (host.keepObject raw) (fun _ t => t.target = w.target ∧ ¬host.Corrupt w.objects raw)
      (fun e t => t.target = w.target ∧ (e.fails ↔ host.Corrupt w.objects raw)) w := by
  rw [keepObject, wp_bind, wp_get]
  cases found : w.objects (host.digest raw) with
  | some object =>
      rw [if_pos (show (some object).isSome = true from rfl), wp_bind]
      refine (host.verify_wp found).mono ?_ ?_
      · rintro _ t ⟨same, size, digest⟩
        have sound : ¬host.Corrupt w.objects raw := by
          rintro ⟨object', found', -, wrong⟩
          cases found.symm.trans found'
          rcases wrong with wrong | wrong
          · exact wrong size
          · exact wrong.2 digest
        rw [same]
        exact wp_reach_last (fun e raised => ⟨rfl, iff_of_false (not_fails rfl raised) sound⟩)
          fun _ => ⟨rfl, sound⟩
      · rintro e t ⟨same, fails⟩
        refine ⟨congrArg WriteWorld.target same, fails.trans ⟨fun wrong => ⟨object, found, wrong⟩, ?_⟩⟩
        rintro ⟨object', found', wrong⟩
        cases found.symm.trans found'
        exact wrong
  | none =>
      have sound : ¬host.Corrupt w.objects raw := by
        rintro ⟨object, found', -⟩
        cases found.symm.trans found'
      rw [if_neg (show ¬(none : Option Bytes).isSome = true from Bool.false_ne_true)]
      refine wp_reach (fun e raised => ⟨rfl, iff_of_false (not_fails rfl raised) sound⟩) fun _ => ?_
      rw [wp_bind, wp_modify]
      refine (host.verify_wp (if_pos rfl)).mono ?_ ?_
      · rintro _ t ⟨same, -⟩
        exact ⟨by rw [same], sound⟩
      · rintro e t ⟨same, fails⟩
        refine ⟨by rw [same], iff_of_false (fun failed => ?_) sound⟩
        rcases (fails.mp failed).2 with wrong | wrong
        · exact wrong rfl
        · exact wrong.2 rfl

theorem WriteHost.storeObject_wp (host : WriteHost) (fresh : ArtifactId) (raw : Bytes)
    (w : WriteWorld) :
    wp (host.storeObject fresh raw)
      (fun _ t => t.target = w.target ∧ ¬(host.maxBytes < raw.length ∨
        host.raises .objectWrite = none ∧ host.raises .objectDirectory = none ∧
          host.Corrupt w.objects raw))
      (fun e t => t.target = w.target ∧ (e.fails ↔ host.maxBytes < raw.length ∨
        host.raises .objectWrite = none ∧ host.raises .objectDirectory = none ∧
          host.Corrupt w.objects raw)) w := by
  rw [storeObject]
  refine wp_check (fun large => ⟨rfl, iff_of_true (fails_harness (by decide)) ?_⟩) fun small => ?_
  · exact .inl (Nat.not_le.mp large)
  have fits := Nat.not_lt.mpr small
  refine wp_reach (fun e raised => ⟨rfl, iff_of_false (not_fails rfl raised) ?_⟩) fun written => ?_
  · rintro (large | ⟨written, -⟩)
    · exact fits large
    · cases raised.symm.trans written
  refine wp_reach (fun e raised => ⟨rfl, iff_of_false (not_fails rfl raised) ?_⟩)
    fun directory => ?_
  · rintro (large | ⟨-, directory, -⟩)
    · exact fits large
    · cases raised.symm.trans directory
  have only : (host.maxBytes < raw.length ∨ host.raises .objectWrite = none ∧
      host.raises .objectDirectory = none ∧ host.Corrupt w.objects raw) ↔
        host.Corrupt w.objects raw := by
    rw [or_iff_right fits, and_iff_right written, and_iff_right directory]
  rw [only, wp_bind]
  refine (host.keepObject_wp raw w).mono ?_ fun e t kept => kept
  rintro _ t ⟨same, sound⟩
  refine wp_reach (fun e raised => ⟨same, iff_of_false (not_fails rfl raised) sound⟩) fun _ => ?_
  exact ⟨same, sound⟩

/-- The artifact store leaves the file alone, and fails exactly where it refuses the bytes. -/
theorem WriteHost.writer_wp (host : WriteHost) (fresh : ArtifactId) (raw : Bytes) (w : WriteWorld) :
    wp (host.writer fresh raw) (fun _ t => t.target = w.target ∧ ¬host.Refuses w.objects raw)
      (fun e t => t.target = w.target ∧ (e.fails ↔ host.Refuses w.objects raw)) w := by
  rw [writer, wp_bind, putBytes]
  refine wp_reach (fun e raised => ⟨rfl, iff_of_false (not_fails rfl raised) fun refuses => ?_⟩)
    fun workspace => ?_
  · cases raised.symm.trans refuses.1
  refine wp_check (fun other => ⟨rfl, iff_of_true (fails_harness (by decide)) ⟨workspace, .inl ?_⟩⟩)
    fun owns => ?_
  · exact Bool.eq_false_iff.mpr other
  have own : host.ownsWorkspace ≠ false := by
    rw [owns]
    decide
  refine wp_reach (fun e raised => ⟨rfl, iff_of_false (not_fails rfl raised) ?_⟩)
    fun temporary => ?_
  · rintro ⟨-, other | ⟨temporary, -⟩⟩
    · exact own other
    · cases raised.symm.trans temporary
  have raised : ∀ e, host.raises .objectUnlink = some e → ¬host.Refuses w.objects raw := by
    rintro e raised ⟨-, other | ⟨-, unlink, -⟩⟩
    · exact own other
    · cases raised.symm.trans unlink
  have only : host.raises .objectUnlink = none → (host.Refuses w.objects raw ↔
      (host.maxBytes < raw.length ∨ host.raises .objectWrite = none ∧
        host.raises .objectDirectory = none ∧ host.Corrupt w.objects raw)) := by
    intro unlink
    rw [Refuses, and_iff_right workspace, or_iff_right own, and_iff_right temporary,
      and_iff_right unlink]
  rw [wp_finally]
  refine (host.storeObject_wp fresh raw w).mono ?_ ?_
  · rintro ref t ⟨same, sound⟩
    refine wp_reach_last (fun e failed => ⟨same, ?_⟩) fun unlink => ?_
    · exact iff_of_false (not_fails rfl failed) (raised e failed)
    · have kept : ¬host.Refuses w.objects raw := fun refuses => sound ((only unlink).mp refuses)
      refine wp_reach (fun e failed => ⟨same, iff_of_false (not_fails rfl failed) kept⟩) fun _ => ?_
      exact ⟨same, kept⟩
  · rintro e t ⟨same, fails⟩
    refine wp_reach_last (fun e' failed => ⟨same, ?_⟩) fun unlink => ?_
    · exact iff_of_false (not_fails rfl failed) (raised e' failed)
    · exact ⟨same, fails.trans (only unlink).symm⟩

/-- The errors of the harness that the artifact store raises. -/
def FileError.ofStore (e : FileError) : Prop :=
  ∀ h, e = .harness h → h.code ∈ [ErrorCode.notFound, .artifactTooLarge, .artifactCorrupt]

theorem WriteHost.reach_raises (host : WriteHost) {point : WritePoint}
    (other : point.checksPath = false) : Raises FileError.ofStore (host.reach point) := by
  intro w
  exact wp_reach_last (fun e raised h same => absurd same (not_harness other raised h)) fun _ => trivial

theorem check_raises {c : Prop} [Decidable c] {e : HarnessError}
    (known : e.code ∈ [ErrorCode.notFound, .artifactTooLarge, .artifactCorrupt]) :
    Raises FileError.ofStore (check c e) := by
  intro w
  refine wp_check_last (fun _ h same => ?_) fun _ => trivial
  cases same
  exact known

theorem WriteHost.verify_raises (host : WriteHost) (digest : Hash) (size : Nat) :
    Raises FileError.ofStore (host.verify digest size) :=
  (host.reach_raises rfl).bind fun _ => Raises.get.bind fun _ => (check_raises (by decide)).bind
    fun _ => (host.reach_raises rfl).bind fun _ => check_raises (by decide)

theorem WriteHost.keepObject_raises (host : WriteHost) (raw : Bytes) :
    Raises FileError.ofStore (host.keepObject raw) := by
  refine Raises.get.bind fun _ => .ite ?_ ?_
  · exact (host.verify_raises _ _).bind fun _ => host.reach_raises rfl
  · exact (host.reach_raises rfl).bind fun _ => (Raises.modify _).bind fun _ => host.verify_raises _ _

theorem WriteHost.writer_raises (host : WriteHost) (fresh : ArtifactId) (raw : Bytes) :
    Raises FileError.ofStore (host.writer fresh raw) := by
  have stored : Raises FileError.ofStore (host.storeObject fresh raw) := by
    refine (check_raises (by decide)).bind fun _ => (host.reach_raises rfl).bind fun _ => ?_
    refine (host.reach_raises rfl).bind fun _ => (host.keepObject_raises raw).bind fun _ => ?_
    exact (host.reach_raises rfl).bind fun _ => (Raises.modify _).bind fun _ => .pure _
  have put : Raises FileError.ofStore (host.putBytes fresh raw) := by
    refine (host.reach_raises rfl).bind fun _ => (check_raises (by decide)).bind fun _ => ?_
    exact (host.reach_raises rfl).bind fun _ => stored.finally' (host.reach_raises rfl)
  exact put.bind fun _ => (host.reach_raises rfl).bind fun _ => (Raises.modify _).bind fun _ =>
    .pure _

/-! ## The file and the outcome -/

/-- The write gets as far as replacing the file. -/
def WriteHost.Replaces (host : WriteHost) (ctx : ExecutionContext) (oid : OperationId)
    (args : WriteArgs) (now : Time) (w : WriteWorld) : Prop :=
  host.Opens args w ∧ host.Commits ctx oid args.expectedHash (encode args.content) now w

/-- A write that does not get as far leaves the file; one that does replaces it, and fails where the
artifact store refuses the bytes. -/
theorem WriteHost.write_wp (host : WriteHost) (ctx : ExecutionContext) (oid : OperationId)
    (args : WriteArgs) (fresh : ArtifactId) (now : Time) (w : WriteWorld) :
    wp (host.write ctx oid args fresh now)
      (fun _ t => host.Replaces ctx oid args now w ∧ t.target = some (encode args.content) ∧
        ¬host.Refuses w.objects (encode args.content))
      (fun e t => (host.Replaces ctx oid args now w ∧ t.target = some (encode args.content) ∧
          (e.fails ↔ host.raises .unlink = none ∧ host.Refuses w.objects (encode args.content)) ∧
          e.ofStore) ∨
        ¬host.Replaces ctx oid args now w ∧ t.target = w.target) w := by
  rw [write, wp_bind]
  refine (host.openWrite_wp args w).mono ?_ ?_
  · rintro before t ⟨rfl, rfl, opens⟩
    dsimp only
    rw [wp_bind, wp_finally]
    have commits := host.commit_wp ctx oid (encode args.content) now t
    rw [opens.version] at commits
    refine commits.mono ?_ ?_
    · rintro _ u ⟨replaced, objects, committed⟩
      have replaces : host.Replaces ctx oid args now t := ⟨opens, committed⟩
      refine wp_reach_last (fun e raised => .inl ⟨replaces, replaced, ?_, ?_⟩) fun unlink => ?_
      · refine iff_of_false (not_fails rfl raised) fun refuses => ?_
        cases raised.symm.trans refuses.1
      · exact fun h same => absurd same (not_harness rfl raised h)
      · rw [wp_bind]
        refine ((host.writer_wp fresh (encode args.content) u).and
          (host.writer_raises fresh (encode args.content) u)).mono ?_ ?_
        · rintro ref v ⟨⟨same, sound⟩, -⟩
          rw [objects] at sound
          exact ⟨replaces, same.trans replaced, sound⟩
        · rintro e v ⟨⟨same, fails⟩, raised⟩
          rw [objects] at fails
          have exactly := fails.trans (and_iff_right unlink).symm
          exact .inl ⟨replaces, same.trans replaced, exactly, raised⟩
    · rintro e u ⟨same, uncommitted⟩
      have stays : ¬host.Replaces ctx oid args now t := fun replaces => uncommitted replaces.2
      exact wp_reach_last (fun _ _ => .inr ⟨stays, same⟩) fun _ => .inr ⟨stays, same⟩
  · rintro e t ⟨same, closed⟩
    exact .inr ⟨fun replaces => closed replaces.1, congrArg WriteWorld.target same⟩

/-- The state in which a write is recorded agrees with the file before and after it. -/
structure WriteHost.Agrees (host : WriteHost) (args : WriteArgs) (before after : Option Bytes)
    (state : OpState) : Prop where
  failed : state = .failed → after = before
  succeeded : state = .succeeded →
    after = some (encode args.content) ∧ before.map host.digest = args.expectedHash

theorem failedResult_failed (oid : OperationId) (e : FileError) :
    (writeFileSpec.failedResult oid e.failure).status.opState = .failed ↔ e.fails := by
  cases e with
  | harness h =>
      by_cases unknown : h.code = .processExitUnknown
      · refine iff_of_false ?_ ?_
        · rw [FileError.failure, ToolSpec.failedResult, if_pos unknown]
          exact fun h => by cases h
        · rintro ⟨_, same, known⟩
          cases same
          exact known unknown
      · refine iff_of_true ?_ (fails_harness unknown)
        rw [FileError.failure, ToolSpec.failedResult, if_neg unknown]
        rfl
  | os => exact iff_of_false (fun h => by cases h) fun ⟨_, same, _⟩ => by cases same
  | other => exact iff_of_false (fun h => by cases h) fun ⟨_, same, _⟩ => by cases same

theorem failedResult_not_succeeded (oid : OperationId) (e : FileError) :
    (writeFileSpec.failedResult oid e.failure).status.opState ≠ .succeeded := by
  cases e with
  | harness h =>
      rw [FileError.failure, ToolSpec.failedResult]
      dsimp only
      split <;> exact fun h => by cases h
  | os => exact fun h => by cases h
  | other => exact fun h => by cases h

/-- A write disagrees with the file exactly where the artifact store refuses the bytes after a
replacement that has changed the file. -/
theorem WriteHost.agrees_iff (host : WriteHost) (ctx : ExecutionContext) (oid : OperationId)
    (args : WriteArgs) (fresh : ArtifactId) (now : Time) (w : WriteWorld) :
    host.Agrees args w.target (host.execute ctx oid args fresh now w).2.target
        (host.execute ctx oid args fresh now w).1.status.opState ↔
      ¬(host.Replaces ctx oid args now w ∧ host.raises .unlink = none ∧
        host.Refuses w.objects (encode args.content) ∧ w.target ≠ some (encode args.content)) := by
  have outcome := host.write_wp ctx oid args fresh now w
  unfold wp at outcome
  unfold execute
  cases run : host.write ctx oid args fresh now w with
  | ok r t =>
      rw [run] at outcome
      obtain ⟨replaces, replaced, accepted⟩ := outcome
      refine iff_of_true ⟨fun h => (by cases h), fun _ => ⟨replaced, replaces.1.version⟩⟩ ?_
      exact fun h => accepted h.2.2.1
  | error e t =>
      rw [run] at outcome
      dsimp only
      constructor
      · rintro agrees ⟨replaces, unlink, refuses, changes⟩
        rcases outcome with ⟨-, replaced, fails, -⟩ | ⟨stays, -⟩
        · have failed := (failedResult_failed oid e).mpr (fails.mpr ⟨unlink, refuses⟩)
          exact changes ((agrees.failed failed).symm.trans replaced)
        · exact stays replaces
      · intro sound
        refine ⟨fun failed => ?_, fun h => absurd h (failedResult_not_succeeded oid e)⟩
        rcases outcome with ⟨replaces, replaced, fails, -⟩ | ⟨-, same⟩
        · obtain ⟨unlink, refuses⟩ := fails.mp ((failedResult_failed oid e).mp failed)
          by_contra changed
          exact sound ⟨replaces, unlink, refuses, fun same => changed (replaced.trans same.symm)⟩
        · exact same

/-- The outcome of a write is recorded as the state of its operation, and agrees with the file unless
the artifact store refuses the bytes after a replacement that has changed the file. -/
theorem write_agrees (host : WriteHost) (ctx : ExecutionContext) (oid : OperationId)
    (args : WriteArgs) (fresh : ArtifactId) (now : Time) (w : WriteWorld) :
    (∀ later s, finishOperation (host.execute ctx oid args fresh now w).2.store ctx oid
        (host.execute ctx oid args fresh now w).1 later = .ok s →
      ∃ o, s.operations.get? oid = some o ∧
        o.state = (host.execute ctx oid args fresh now w).1.status.opState) ∧
    (host.Agrees args w.target (host.execute ctx oid args fresh now w).2.target
        (host.execute ctx oid args fresh now w).1.status.opState ↔
      ¬(host.Replaces ctx oid args now w ∧ host.raises .unlink = none ∧
        host.Refuses w.objects (encode args.content) ∧ w.target ≠ some (encode args.content))) := by
  exact ⟨fun _ _ finishes => finishOperation_state finishes, host.agrees_iff ctx oid args fresh now w⟩

namespace Sample

/-- A disk on which every call passes, with objects of up to 128 MiB. -/
def disk : WriteHost where
  raises _ := none
  plain _ _ h := by cases h
  resolved := "/w/a.txt"
  parentExists := true
  ownsWorkspace := true
  digest bytes := String.ofList (bytes.map fun b => Char.ofNat b.toNat)
  maxBytes := 134217728

/-- The operation of a write has started. -/
def writing : List Action := submitted ++
  [.claim ⟨1, 1⟩ 20,
    .prepareOperation (context 20 1) ⟨1, 1, .named "mcp", "1", "args", "args", "target"⟩ 100,
    .startOperation (context 20 1) 100 operation 200 ⟨100, "1", "args", "target", 1, 500⟩ 1]

def rewritten : WriteArgs where
  path := "a.txt"
  content := ['b']
  expectedHash := some "a"

/-- The object that the artifact store has for the new content is empty. -/
def truncated (store : Store) : WriteWorld where
  target := some [0x61]
  objects hash := if hash = "b" then some [] else none
  artifacts := []
  references := []
  store := store

end Sample

/-- The artifact store finds its object of the new content truncated when the file has been replaced:
the operation is recorded as failed, and the file has changed. -/
theorem write_disagrees : ¬∀ (host : WriteHost) ctx oid args fresh now w, host.Agrees args w.target
    (host.execute ctx oid args fresh now w).2.target
    (host.execute ctx oid args fresh now w).1.status.opState := by
  intro agrees
  have run : (System.runs (World.next Sample.host) Sample.start Sample.writing).any (fun w =>
      (annotateOperation w.store (Sample.context 20 1) 100 (.write "/w/a.txt" (some "a") "b")
        w.now).isOk) = true := by decide
  simp only [Option.any_eq_true] at run
  obtain ⟨w, -, recorded⟩ := run
  have hashed : Sample.disk.digest (encode Sample.rewritten.content) = "b" := by decide
  have old : (Sample.truncated w.store).target.map Sample.disk.digest = some "a" :=
    congrArg some (show Sample.disk.digest [0x61] = "a" by decide)
  have opens : Sample.disk.Opens Sample.rewritten (Sample.truncated w.store) :=
    ⟨fun _ _ => rfl, rfl, by decide, old⟩
  have commits : Sample.disk.Commits (Sample.context 20 1) 100 Sample.rewritten.expectedHash
      (encode Sample.rewritten.content) w.now (Sample.truncated w.store) := by
    refine ⟨fun _ _ => rfl, ?_⟩
    rw [hashed]
    cases h : annotateOperation w.store (Sample.context 20 1) 100 (.write "/w/a.txt" (some "a") "b")
        w.now with
    | ok store => exact ⟨store, h⟩
    | error e =>
        rw [h] at recorded
        cases recorded
  have corrupt : Sample.disk.Corrupt (Sample.truncated w.store).objects
      (encode Sample.rewritten.content) := by
    refine ⟨[], ?_, rfl, .inl (show ([] : Bytes).length ≠ (encode ['b']).length by decide)⟩
    rw [hashed]
    rfl
  refine (Sample.disk.agrees_iff (Sample.context 20 1) 100 Sample.rewritten 1 w.now
    (Sample.truncated w.store)).mp (agrees ..) ⟨⟨opens, commits⟩, rfl, ?_, ?_⟩
  · exact ⟨rfl, .inr ⟨rfl, rfl, .inr ⟨rfl, rfl, corrupt⟩⟩⟩
  · exact show some [0x61] ≠ some (encode ['b']) by decide

end MiHarness

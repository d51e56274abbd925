import MiHarness.Core.Contracts
import MiHarness.Library.Effects
import MiHarness.Library.Table
import MiHarness.Library.Utf8
import Mathlib.Data.List.Sort

/-!
# Snapshots of bundles

A bundle is stored under the digest of its manifest, which lists the digests of its files.  What is stored
is not written again: a bundle whose digest is there is verified and left as it is.  A file is read only
by a canonical name of the manifest, and only if it still has the digest that is listed.
-/

namespace MiHarness

open Library Library.Utf8

/-! ## Errors -/

/-- The classes of exceptions that a caller tells apart. -/
inductive SkillErrorKind where
  | permission | value | fileNotFound | key | os | unicode | other
deriving DecidableEq, Repr

structure SkillError where
  kind : SkillErrorKind
  text : String
deriving DecidableEq, Repr

/-- `type(exc).__name__`, where that is known. -/
def SkillErrorKind.className : SkillErrorKind → String
  | .permission => "PermissionError"
  | .value => "ValueError"
  | .fileNotFound => "FileNotFoundError"
  | .key => "KeyError"
  | .os => "OSError"
  | .unicode => "UnicodeDecodeError"
  | .other => "Exception"

/-! ## Names and digests -/

def escapesError : SkillError :=
  { kind := .permission, text := "resource reference escapes its skill snapshot" }

def canonicalError : SkillError :=
  { kind := .permission, text := "resource reference must be canonical" }

/-- `safe_relative`: a text that is relative and without `..`, and nothing that another system could take for
a drive or a stream; and that is its own path, so without empty parts and without `.`. -/
def safeRelative (value : String) : Except SkillError Unit := do
  let parts := value.toList.splitOn '/'
  require (value ≠ "" ∧ '\\' ∉ value.toList ∧ ':' ∉ value.toList ∧ value.toList.head? ≠ some '/' ∧
    ∀ part ∈ parts, part ≠ ['.', '.']) escapesError
  require (∀ part ∈ parts, part ≠ [] ∧ part ≠ ['.']) canonicalError

/-- The files of a bundle, by name. -/
abbrev Bundle := Table String Bytes

abbrev Manifest := List (String × Hash)

/-- The digest, and the text of a manifest with its names in order. -/
structure SnapshotHost where
  /-- `hashlib.sha256(data).hexdigest()`. -/
  sha256 : Bytes → Hash
  /-- `json.dumps(manifest, sort_keys=True, separators=(",", ":")).encode()`. -/
  dumps : Manifest → Bytes

variable (host : SnapshotHost)

/-- The digests of the files of a bundle, by name. -/
def SnapshotHost.manifestOf (files : Bundle) : Manifest :=
  (files.rows.map fun file => (file.1, host.sha256 file.2)).insertionSort fun a b => a.1 ≤ b.1

/-- `bundle_hash`. -/
def SnapshotHost.bundleHash (files : Bundle) : Hash := host.sha256 (host.dumps (host.manifestOf files))

/-! ## The store -/

/-- A directory of the store: its manifest and its files. -/
structure SkillSnapshot where
  manifest : Manifest
  files : Bundle

abbrev SnapshotStore := Table Hash SkillSnapshot

/-- 64 digits of lower case. -/
def validDigest (digest : Hash) : Bool :=
  digest.toList.length = 64 && digest.toList.all "0123456789abcdef".toList.contains

abbrev SnapshotM := EStateM SkillError SnapshotStore

/-- `SnapshotStore._path`. -/
def checkDigest (digest : Hash) : SnapshotM Unit :=
  ensure (validDigest digest = true) { kind := .value, text := "invalid snapshot hash" }

/-- `SnapshotStore.manifest`. -/
def SnapshotHost.manifest (digest : Hash) : SnapshotM Manifest := do
  checkDigest digest
  match (← get).get? digest with
  | none => throw { kind := .fileNotFound, text := "pinned skill snapshot is missing" }
  | some snapshot =>
      ensure (host.sha256 (host.dumps snapshot.manifest) = digest)
        { kind := .value, text := "skill snapshot manifest integrity failure" }
      return snapshot.manifest

/-- The file of a snapshot, with the digest that the manifest lists for it. -/
def SnapshotHost.readFile (digest : Hash) (name : String) (listed : Hash) : SnapshotM Bytes := do
  match ((← get).get? digest).bind fun snapshot => snapshot.files.get? name with
  | none => throw { kind := .fileNotFound, text := name }
  | some content =>
      ensure (host.sha256 content = listed)
        { kind := .value, text := "skill resource integrity failure" }
      return content

/-- `SnapshotStore.read`. -/
def SnapshotHost.read (digest : Hash) (resourceRef : String) : SnapshotM Bytes := do
  raising (safeRelative resourceRef)
  match (← host.manifest digest).lookup resourceRef with
  | none => throw { kind := .fileNotFound, text := "resource is not in pinned skill snapshot" }
  | some listed => host.readFile digest resourceRef listed

/-- `SnapshotStore.verify`. -/
def SnapshotHost.verifyAll (digest : Hash) : List String → SnapshotM Unit
  | [] => return ()
  | name :: names => do
      let _ ← host.read digest name
      verifyAll digest names

def SnapshotHost.verify (digest : Hash) : SnapshotM Unit := do
  host.verifyAll digest ((← host.manifest digest).map Prod.fst)

/-- `SnapshotStore.put`; the operating system may refuse to write. -/
def SnapshotHost.put (files : Bundle) (refused : Option SkillError) : SnapshotM Hash := do
  let digest := host.bundleHash files
  checkDigest digest
  if ((← get).get? digest).isSome = true then
    host.verify digest
    return digest
  else
    raising (files.keys.forM safeRelative)
    raise refused
    modify fun store => store.put digest { manifest := host.manifestOf files, files }
    return digest

/-! ## What is stored stays -/

/-- Every directory has the manifest of its files, and is under its digest. -/
def SnapshotHost.Sound (store : SnapshotStore) : Prop :=
  ∀ digest snapshot, store.get? digest = some snapshot →
    snapshot.manifest = host.manifestOf snapshot.files ∧ host.bundleHash snapshot.files = digest

/-- What is stored is stored as it was, and what is new is as it should be. -/
structure SnapshotHost.Grows (s t : SnapshotStore) : Prop where
  kept : ∀ digest snapshot, s.get? digest = some snapshot → t.get? digest = some snapshot
  sound : host.Sound s → host.Sound t

variable {host} {s t u : SnapshotStore} {digest : Hash}

theorem SnapshotHost.Grows.refl (s : SnapshotStore) : host.Grows s s := ⟨fun _ _ h => h, id⟩

theorem SnapshotHost.Grows.trans (first : host.Grows s t) (second : host.Grows t u) :
    host.Grows s u :=
  ⟨fun digest snapshot h => second.kept digest snapshot (first.kept digest snapshot h),
    fun sound => second.sound (first.sound sound)⟩

theorem checkDigest_wp (digest : Hash) (s : SnapshotStore) :
    wp (checkDigest digest) (fun _ t => t = s ∧ validDigest digest = true) (fun _ t => t = s) s :=
  wp_ensure (fun _ => rfl) fun valid => ⟨rfl, valid⟩

theorem SnapshotHost.manifest_wp (host : SnapshotHost) (digest : Hash) (s : SnapshotStore) :
    wp (host.manifest digest)
      (fun manifest t => t = s ∧ ∃ snapshot, s.get? digest = some snapshot ∧
        snapshot.manifest = manifest)
      (fun _ t => t = s) s := by
  rw [manifest, wp_bind]
  refine (checkDigest_wp digest s).mono ?_ fun _ _ h => h
  rintro _ t ⟨rfl, -⟩
  rw [wp_bind, wp_get]
  split
  case h_1 => exact rfl
  case h_2 snapshot found =>
    exact wp_ensure_bind (fun _ => rfl) fun _ => ⟨rfl, snapshot, found, rfl⟩

theorem SnapshotHost.readFile_wp (host : SnapshotHost) (digest : Hash) (name : String)
    (listed : Hash) (s : SnapshotStore) : wp (host.readFile digest name listed)
      (fun content t => t = s ∧ ∃ snapshot, s.get? digest = some snapshot ∧
        snapshot.files.get? name = some content)
      (fun _ t => t = s) s := by
  rw [readFile, wp_bind, wp_get]
  split
  case h_1 => exact rfl
  case h_2 content found =>
    refine wp_ensure_bind (fun _ => rfl) fun _ => ⟨rfl, ?_⟩
    exact Option.bind_eq_some_iff.mp found

/-- What is read is the file of the snapshot, and nothing is written. -/
theorem SnapshotHost.read_wp (host : SnapshotHost) (digest : Hash) (resourceRef : String)
    (s : SnapshotStore) : wp (host.read digest resourceRef)
      (fun content t => t = s ∧ ∃ snapshot, s.get? digest = some snapshot ∧
        snapshot.files.get? resourceRef = some content)
      (fun _ t => t = s) s := by
  rw [read]
  refine wp_raising_bind (fun _ _ => rfl) fun _ _ => ?_
  rw [wp_bind]
  refine (host.manifest_wp digest s).mono ?_ fun _ _ h => h
  rintro manifest t ⟨rfl, -⟩
  split
  case h_1 => exact rfl
  case h_2 listed _ => exact host.readFile_wp digest resourceRef listed t

theorem SnapshotHost.verifyAll_wp (host : SnapshotHost) (digest : Hash) (names : List String)
    (s : SnapshotStore) :
    wp (host.verifyAll digest names) (fun _ t => t = s) (fun _ t => t = s) s := by
  induction names with
  | nil => exact rfl
  | cons name names ih =>
      rw [verifyAll, wp_bind]
      refine (host.read_wp digest name s).mono ?_ fun _ _ h => h
      rintro _ t ⟨rfl, -⟩
      exact ih

theorem SnapshotHost.verify_wp (host : SnapshotHost) (digest : Hash) (s : SnapshotStore) :
    wp (host.verify digest) (fun _ t => t = s) (fun _ t => t = s) s := by
  rw [verify, wp_bind]
  refine (host.manifest_wp digest s).mono ?_ fun _ _ h => h
  rintro manifest t ⟨rfl, -⟩
  exact host.verifyAll_wp digest _ t

/-- A bundle is stored under its digest; what is stored already stays. -/
theorem SnapshotHost.put_wp (host : SnapshotHost) (files : Bundle) (refused : Option SkillError)
    (s : SnapshotStore) : wp (host.put files refused)
      (fun digest t => host.Grows s t ∧ digest = host.bundleHash files ∧ ∃ snapshot,
        t.get? digest = some snapshot)
      (fun _ t => t = s) s := by
  rw [put, wp_bind]
  refine (checkDigest_wp _ s).mono ?_ fun _ _ h => h
  rintro _ t ⟨rfl, -⟩
  rw [wp_bind, wp_get]
  split
  case isTrue stored =>
    rw [wp_bind]
    refine (host.verify_wp _ t).mono ?_ fun _ _ h => h
    rintro _ u rfl
    exact ⟨.refl u, rfl, Option.isSome_iff_exists.mp stored⟩
  case isFalse absent =>
    refine wp_raising_bind (fun _ _ => rfl) fun _ _ => ?_
    refine wp_raise_bind (fun _ _ => rfl) fun _ => ?_
    rw [wp_bind, wp_modify]
    refine ⟨⟨fun other snapshot found => ?_, fun sound other snapshot found => ?_⟩, rfl, _,
      (Table.get?_put ..).trans (if_pos rfl)⟩
    · have different : other ≠ host.bundleHash files := by
        rintro rfl
        rw [found] at absent
        exact absent rfl
      exact (Table.get?_put ..).trans ((if_neg different).trans found)
    · rw [Table.get?_put] at found
      split at found
      case isTrue same =>
        cases found
        exact ⟨rfl, same.symm⟩
      case isFalse => exact sound other snapshot found

end MiHarness

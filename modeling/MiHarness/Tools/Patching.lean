import MiHarness.Library.Lines
import MiHarness.Library.Occurrence
import MiHarness.Tools.Writing

/-!
# Patching files

`apply_patch` reads a file as text, in universal newline mode, counts the occurrences of the old text
that do not overlap, and writes the text with the first replaced.  `patch_exact` says when that is the
file with its one occurrence replaced.
-/

namespace MiHarness

open Library Library.Utf8

/-! ## `apply_patch` -/

structure PatchArgs where
  path : String
  oldText : List Char
  newText : List Char
  expectedHash : Hash

def patchTarget : HarnessError :=
  { code := .patchTarget, message := "补丁目标不存在或超过大小限制", status := 422 }

def patchAmbiguous : HarnessError :=
  { code := .patchAmbiguous, message := "补丁旧文本必须恰好匹配一次", status := 422 }

/-- `path.read_text(encoding="utf-8")`. -/
def WriteHost.readText (host : WriteHost) (bytes : Bytes) : WriteM (List Char) := do
  host.reach .patchRead
  match decodeStrict bytes with
  | some text => return universalNewlines text
  | none => throw .other

def WriteHost.patch (host : WriteHost) (ctx : ExecutionContext) (oid : OperationId)
    (args : PatchArgs) (fresh : ArtifactId) (now : Time) : WriteM WriteResult := do
  host.reach .patchPolicy
  host.reach .patchStat
  let file := (← get).target
  check (file.any (·.length ≤ 16 * 1024 * 1024) = true) patchTarget
  let original ← host.readText (file.getD [])
  check (args.oldText ≠ [] ∧ countFrom args.oldText 0 original = 1) patchAmbiguous
  host.write ctx oid
    { path := args.path, content := replaceFirst args.oldText args.newText original
      expectedHash := some args.expectedHash } fresh now

/-! ## What is patched -/

/-- A patch that succeeds writes the text of the file with the first occurrence replaced; one that fails
leaves the file, or the artifact store has refused what it wrote. -/
theorem WriteHost.patch_wp (host : WriteHost) (ctx : ExecutionContext) (oid : OperationId)
    (args : PatchArgs) (fresh : ArtifactId) (now : Time) (w : WriteWorld) :
    wp (host.patch ctx oid args fresh now)
      (fun _ t => ∃ text, w.target = some (encode text) ∧
        host.digest (encode text) = args.expectedHash ∧ args.oldText ≠ [] ∧
        countFrom args.oldText 0 (universalNewlines text) = 1 ∧
        t.target = some (encode (replaceFirst args.oldText args.newText (universalNewlines text))))
      (fun e t => t.target = w.target ∨ e.ofStore) w := by
  rw [patch]
  refine wp_reach (fun _ _ => .inl rfl) fun _ => ?_
  refine wp_reach (fun _ _ => .inl rfl) fun _ => ?_
  rw [wp_bind, wp_get]
  refine wp_check (fun _ => .inl rfl) fun file => ?_
  obtain ⟨before, target, -⟩ := (Option.any_eq_true ..).mp file
  rw [target, Option.getD_some, wp_bind, readText]
  refine wp_reach (fun _ _ => .inl target) fun _ => ?_
  cases decoded : decodeStrict before with
  | none => exact .inl target
  | some text =>
      have bytes := encode_of_decodeStrict decoded
      subst bytes
      refine wp_check (fun _ => .inl target) fun once => ?_
      refine (host.write_wp ctx oid _ fresh now w).mono ?_ ?_
      · rintro r t ⟨⟨opens, -⟩, replaced, -⟩
        have version := opens.version
        rw [target] at version
        exact ⟨text, rfl, Option.some.inj version, once.1, once.2, replaced⟩
      · rintro e t (⟨-, -, -, raised⟩ | ⟨-, same⟩)
        · exact .inr raised
        · exact .inl (same.trans target)

/-- A patch that succeeds has replaced the one occurrence of the old text, and nothing else, if and only
if the file has no carriage return and no two occurrences overlap.  One that fails with an error of its
own or of the version leaves the file. -/
theorem patch_exact (host : WriteHost) (ctx : ExecutionContext) (oid : OperationId)
    (args : PatchArgs) (fresh : ArtifactId) (now : Time) (w : WriteWorld) :
    (∀ r t, host.patch ctx oid args fresh now w = .ok r t → ∃ text after,
      w.target = some (encode text) ∧ host.digest (encode text) = args.expectedHash ∧
      t.target = some after ∧
      (Replaced (encode args.oldText) (encode args.newText) (encode text) after ↔
        '\r' ∉ text ∧ ¬Overlaps args.oldText text)) ∧
    ∀ e t, host.patch ctx oid args fresh now w = .error (.harness e) t →
      e.code ∈ [ErrorCode.patchTarget, .patchAmbiguous, .fileVersionConflict] →
      t.target = w.target := by
  have outcome := host.patch_wp ctx oid args fresh now w
  constructor
  · intro r t run
    unfold wp at outcome
    rw [run] at outcome
    obtain ⟨text, target, version, some, once, replaced⟩ := outcome
    refine ⟨text, _, target, version, replaced, ?_⟩
    rw [replaced_encode some]
    by_cases cr : '\r' ∈ text
    · refine iff_of_false ?_ fun h => h.1 cr
      exact not_replaced_of_mem cr (not_mem_newlinesFrom false text) (once ▸ Nat.one_ne_zero) some
    · rw [universalNewlines_of_not_mem cr] at once ⊢
      rw [replaced_iff some once, and_iff_right cr]
  · intro e t run own
    unfold wp at outcome
    rw [run] at outcome
    rcases outcome with same | stored
    · exact same
    · have other := stored e rfl
      simp only [List.mem_cons, List.not_mem_nil, or_false] at own other
      rcases own with own | own | own <;> rw [own] at other <;> simp at other

namespace Sample

/-- A file with these bytes, on a disk without objects. -/
def filed (bytes : Bytes) (store : Store) : WriteWorld where
  target := some bytes
  objects _ := none
  artifacts := []
  references := []
  store := store

def replacing (text oldText newText : List Char) : PatchArgs where
  path := "a.txt"
  oldText := oldText
  newText := newText
  expectedHash := disk.digest (encode text)

/-- The operation of run `10` patches a file. -/
def patched (text oldText newText : List Char) (w : World) :
    EStateM.Result FileError WriteWorld WriteResult :=
  disk.patch (context 20 1) 100 (replacing text oldText newText) 1 w.now (filed (encode text) w.store)

/-- The patch succeeds and leaves these bytes. -/
def leaves (text oldText newText after : List Char) (w : World) : Bool :=
  match patched text oldText newText w with
  | .ok _ t => t.target = some (encode after)
  | .error _ _ => false

theorem exists_patched (text oldText newText after : List Char)
    (run : (System.runs (World.next host) start writing).any (leaves text oldText newText after)
      = true) :
    ∃ w r t, patched text oldText newText w = .ok r t ∧ t.target = some (encode after) := by
  obtain ⟨w, -, left⟩ := (Option.any_eq_true ..).mp run
  unfold leaves at left
  split at left
  · rename_i r t ran
    exact ⟨w, r, t, ran, of_decide_eq_true left⟩
  · cases left

end Sample

/-- The middle of three letters is replaced. -/
theorem patch_exact_letter : ∃ w r t, Sample.patched ['a', 'b', 'c'] ['b'] ['x'] w = .ok r t ∧
    ∃ after, t.target = some after ∧ Replaced (encode ['b']) (encode ['x']) (encode ['a', 'b', 'c'])
      after := by
  obtain ⟨w, r, t, run, -⟩ := Sample.exists_patched ['a', 'b', 'c'] ['b'] ['x']
    ['a', 'x', 'c'] (by decide)
  obtain ⟨text, after, target, -, left, iff⟩ := (patch_exact Sample.disk (Sample.context 20 1) 100
    (Sample.replacing ['a', 'b', 'c'] ['b'] ['x']) 1 w.now
    (Sample.filed (encode ['a', 'b', 'c']) w.store)).1 r t run
  refine ⟨w, r, t, run, after, left, ?_⟩
  have same := encode_inj (Option.some.inj target)
  subst same
  refine iff.mpr ⟨by decide, ?_⟩
  rintro ⟨a, b, a', b', -, -, behind, inside⟩
  exact Nat.lt_irrefl _ (Nat.lt_of_lt_of_le inside behind)

/-- Two overlapping occurrences are counted as one, and a line end of a carriage return and a line feed
loses its carriage return. -/
theorem patch_inexact : (∃ w r t after, Sample.patched ['a', 'a', 'a'] ['a', 'a'] ['b'] w = .ok r t ∧
      t.target = some after ∧
      ¬Replaced (encode ['a', 'a']) (encode ['b']) (encode ['a', 'a', 'a']) after) ∧
    ∃ w r t after, Sample.patched ['x', '\r', '\n'] ['x'] ['y'] w = .ok r t ∧
      t.target = some after ∧
      ¬Replaced (encode ['x']) (encode ['y']) (encode ['x', '\r', '\n']) after := by
  constructor
  · obtain ⟨w, r, t, run, left⟩ := Sample.exists_patched ['a', 'a', 'a'] ['a', 'a'] ['b']
      ['b', 'a'] (by decide)
    refine ⟨w, r, t, _, run, left, fun replaced => ?_⟩
    obtain ⟨a, b, -, -, unique⟩ := (replaced_encode (by decide)).mp replaced
    cases (unique [] ['a'] rfl).trans (unique ['a'] [] rfl).symm
  · obtain ⟨w, r, t, run, left⟩ := Sample.exists_patched ['x', '\r', '\n'] ['x'] ['y']
      ['y', '\n'] (by decide)
    refine ⟨w, r, t, _, run, left, fun replaced => ?_⟩
    obtain ⟨a, b, before, after, -⟩ := (replaced_encode (by decide)).mp replaced
    have long := congrArg List.length before
    have short := congrArg List.length after
    simp at long short
    omega

end MiHarness

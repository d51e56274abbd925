import Mathlib.Data.String.Basic
import MiHarness.Core.Contracts
import MiHarness.Library.Checked

/-!
# The limits of models

A model has one of two tiers for its context window.  Limits from before the tiers are migrated to the
default one, unless they have the window of the extended tier already, and so are the defaults that the
application itself has set for the output (`ModelLimits.migrate`).  Limits that have been migrated need it
no more (`migrated_needs`).

A profile is published under a reference that tells its id and its revision.
-/

namespace MiHarness

open Library

/-! ## Limits -/

def defaultModelContextWindow : Nat := 300000
def extendedModelContextWindow : Nat := 1000000
def defaultModelOutputLimit : Nat := 8192

def configurableModelContextWindows : List Nat := [defaultModelContextWindow, extendedModelContextWindow]

inductive ReasoningTokens where
  | output | input | separate | unknown
deriving DecidableEq, Repr

structure ModelLimits where
  contextWindow : Option Nat := some defaultModelContextWindow
  inputLimit : Option Nat := none
  outputLimit : Option Nat := none
  reasoningTokens : ReasoningTokens := .unknown
  sourceRef : Option String := none
deriving DecidableEq, Repr

inductive MigrationFault where
  /-- What the store raises. -/
  | harness (error : HarnessError)
  | value (message : String)
  /-- A missing agent, or a reference that is no key of a dictionary. -/
  | type
deriving DecidableEq, Repr

/-- `configured_model_limits`. -/
def configuredModelLimits (contextWindow : Nat) (previous : Option ModelLimits)
    (outputLimit : Option Nat := some defaultModelOutputLimit) : Except MigrationFault ModelLimits := do
  require (contextWindow ∈ configurableModelContextWindows)
    (.value "Context window must be the 300K default or explicit 1M tier")
  return {
    contextWindow := some contextWindow
    inputLimit := none
    outputLimit := ((previous.bind ModelLimits.outputLimit).filter (· ≠ 0)).or outputLimit
    reasoningTokens := previous.elim .unknown ModelLimits.reasoningTokens
    sourceRef := some (if contextWindow = extendedModelContextWindow then
      "user-configured:model-context-window-1m-v2" else "app:default-model-context-window-300k-v2") }

/-- `context_limits_are_current`. -/
def ModelLimits.current (limits : ModelLimits) : Bool :=
  limits.contextWindow.any configurableModelContextWindows.contains && limits.inputLimit.isNone

/-- `uses_legacy_app_output_default`. -/
def ModelLimits.legacyOutput (limits : ModelLimits) : Bool :=
  limits.outputLimit = some 2048 &&
    (limits.sourceRef = some "app:default-model-context-window-300k-v1" ||
      limits.sourceRef = some "user-configured:model-context-window-1m-v1")

/-- The limits that the migration gives a model. -/
def ModelLimits.migrate (limits : ModelLimits) : Except MigrationFault ModelLimits := do
  let migrated ← configuredModelLimits
    (if limits.contextWindow = some extendedModelContextWindow then extendedModelContextWindow
      else defaultModelContextWindow) (some limits)
  return if limits.legacyOutput = true then
    { migrated with outputLimit := some defaultModelOutputLimit } else migrated

def ModelLimits.needsMigration (limits : ModelLimits) : Bool := !limits.current || limits.legacyOutput

/-! ## Limits that are migrated -/

/-- The limits after the migration of these. -/
def ModelLimits.migrated (limits : ModelLimits) : ModelLimits where
  contextWindow :=
    some (if limits.contextWindow = some extendedModelContextWindow then extendedModelContextWindow
      else defaultModelContextWindow)
  inputLimit := none
  outputLimit := if limits.legacyOutput = true then some defaultModelOutputLimit else
    (limits.outputLimit.filter (· ≠ 0)).or (some defaultModelOutputLimit)
  reasoningTokens := limits.reasoningTokens
  sourceRef := some (if limits.contextWindow = some extendedModelContextWindow then
    "user-configured:model-context-window-1m-v2" else "app:default-model-context-window-300k-v2")

theorem ModelLimits.migrate_eq (limits : ModelLimits) : limits.migrate = .ok limits.migrated := by
  have tier : (if limits.contextWindow = some extendedModelContextWindow then
      extendedModelContextWindow else defaultModelContextWindow) ∈ configurableModelContextWindows := by
    split
    · decide
    · decide
  have extended : (if limits.contextWindow = some extendedModelContextWindow then
      extendedModelContextWindow else defaultModelContextWindow) = extendedModelContextWindow ↔
        limits.contextWindow = some extendedModelContextWindow := by
    split
    · exact iff_of_true rfl ‹_›
    · exact iff_of_false (by decide) ‹_›
  rw [migrate, configuredModelLimits, require_pos _ tier, migrated]
  simp only [extended]
  cases limits.legacyOutput with
  | false => rfl
  | true => rfl

/-- Migrated limits are current, and not the old default of the application. -/
theorem ModelLimits.migrated_needs (limits : ModelLimits) : limits.migrated.needsMigration = false := by
  rw [needsMigration, Bool.or_eq_false_iff, Bool.not_eq_false', current, legacyOutput, migrated]
  split
  · exact ⟨rfl, Bool.and_eq_false_imp.mpr fun _ => by simp⟩
  · exact ⟨rfl, Bool.and_eq_false_imp.mpr fun _ => by simp⟩

theorem ModelLimits.current_iff {limits : ModelLimits} : limits.current = true ↔
    (limits.contextWindow = some defaultModelContextWindow ∨
      limits.contextWindow = some extendedModelContextWindow) ∧ limits.inputLimit = none := by
  rw [current, Bool.and_eq_true, Option.isNone_iff_eq_none]
  refine and_congr_left fun _ => ?_
  cases limits.contextWindow with
  | none => simp
  | some window => simp [configurableModelContextWindows]

/-! ## References -/

/-- `ModelProfile.ref`, of the id and the revision. -/
def profileRef (profileId : String) (revision : Nat) : String := profileId ++ "@" ++ toString revision

/-- What follows the last separator. -/
theorem takeWhile_after_last {c : Char} (x : List Char) {y : List Char} (absent : c ∉ y) :
    (x ++ c :: y).reverse.takeWhile (· ≠ c) = y.reverse := by
  have others : ∀ d ∈ y.reverse, decide (d ≠ c) = true := fun d mem =>
    decide_eq_true fun same => absent (same ▸ List.mem_reverse.mp mem)
  rw [List.reverse_append, List.reverse_cons, List.append_assoc, List.singleton_append,
    List.takeWhile_append_of_pos others, List.takeWhile_cons_of_neg (by simp), List.append_nil]

theorem at_notMem_digits (n : Nat) : '@' ∉ Nat.toDigits 10 n := by
  intro mem
  exact absurd (Nat.isDigit_of_mem_toDigits (by decide) (by decide) mem) (by decide)

/-- A reference tells the id and the revision, also where the id has an `@`. -/
theorem profileRef_inj {a b : String} {m n : Nat} (same : profileRef a m = profileRef b n) :
    a = b ∧ m = n := by
  have chars : a.toList ++ '@' :: Nat.toDigits 10 m = b.toList ++ '@' :: Nat.toDigits 10 n := by
    have lists := congrArg String.toList same
    simp only [profileRef, String.toList_append, Nat.toString_eq_repr, Nat.toList_repr] at lists
    rwa [List.append_assoc, List.append_assoc] at lists
  have digits : Nat.toDigits 10 m = Nat.toDigits 10 n := by
    have ends := takeWhile_after_last a.toList (at_notMem_digits m)
    rw [chars, takeWhile_after_last b.toList (at_notMem_digits n)] at ends
    exact (List.reverse_injective ends).symm
  have number := congrArg (fun digits => Nat.ofDigitChars 10 digits 0) digits
  rw [Nat.ofDigitChars_ten_toDigits, Nat.ofDigitChars_ten_toDigits] at number
  rw [digits] at chars
  exact ⟨String.toList_injective (List.append_cancel_right chars), number⟩

end MiHarness

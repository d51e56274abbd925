import Mathlib.Data.Finset.Basic
import MiHarness.Library.Checked
import MiHarness.Core.Contracts

/-!
# The policy engine

A policy is assembled from layers: the global record, the record of the workspace, a named
record that the agent refers to, the policy frozen in the snapshot of the run, the cap of the
environment and the mode.  A record may miss any of its keys.  A sorted list without
repetitions is a finite set.
-/

namespace MiHarness

open Library

inductive Egress where
  | cloudAllowed | domainAllowlist | localOnly
deriving DecidableEq, Repr

/-- A policy with every key of `DEFAULT_POLICY`.  The platform keys are there once the cap of
the environment has been applied. -/
structure Policy where
  revision : Nat
  egress : Egress
  domains : Finset String
  capabilities : Finset String
  approvalEffects : Finset Effect
  trustedLocalExecution : Bool
  platformNetwork : Option Bool := none
  platformProcess : Option Bool := none
  platformAllowedHosts : Option (Finset String) := none
deriving DecidableEq

def defaultPolicy : Policy where
  revision := 1
  egress := .cloudAllowed
  domains := ∅
  capabilities := {"file_read", "file_write", "process", "network", "input", "artifact", "delegate",
    "memory", "skills", "mcp"}
  approvalEffects := {.workspaceWrite, .process, .externalWrite}
  trustedLocalExecution := true

/-- A stored policy: any of the keys of `DEFAULT_POLICY`. -/
structure PolicyRecord where
  revision : Option Nat := none
  egress : Option Egress := none
  domains : Option (Finset String) := none
  capabilities : Option (Finset String) := none
  approvalEffects : Option (Finset Effect) := none
  trustedLocalExecution : Option Bool := none
deriving DecidableEq

/-- `{**DEFAULT_POLICY, **record}`. -/
def PolicyRecord.fill (r : PolicyRecord) : Policy where
  revision := r.revision.getD defaultPolicy.revision
  egress := r.egress.getD defaultPolicy.egress
  domains := r.domains.getD defaultPolicy.domains
  capabilities := r.capabilities.getD defaultPolicy.capabilities
  approvalEffects := r.approvalEffects.getD defaultPolicy.approvalEffects
  trustedLocalExecution := r.trustedLocalExecution.getD defaultPolicy.trustedLocalExecution

/-- `snapshot["policy"]`: a policy as it was when the run was submitted. -/
structure FrozenPolicy extends PolicyRecord where
  platformNetwork : Option Bool := none
  platformProcess : Option Bool := none
  platformAllowedHosts : Option (Finset String) := none
deriving DecidableEq

def Policy.freeze (p : Policy) : FrozenPolicy where
  revision := some p.revision
  egress := some p.egress
  domains := some p.domains
  capabilities := some p.capabilities
  approvalEffects := some p.approvalEffects
  trustedLocalExecution := some p.trustedLocalExecution
  platformNetwork := p.platformNetwork
  platformProcess := p.platformProcess
  platformAllowedHosts := p.platformAllowedHosts

structure Permissions where
  network : Bool
  process : Bool
  workspaceWrite : Bool
  allowedHosts : Finset String

/-- The record `platform_permissions`. -/
structure PlatformPermissions where
  permissions : Permissions
  revision : Nat

inductive Mode where
  | react | plan
deriving DecidableEq, Repr

/-- What the policy engine and the gateway read of the snapshot of a run. -/
structure Snapshot where
  mode : Mode := .react
  /-- `agent_spec["policy"]`. -/
  policyRef : String := "default"
  policy : Option FrozenPolicy := none
  /-- `server_id` of the entries of `mcp`. -/
  mcpServers : List String := []
  tools : List (ToolId × String) := []
  planReadonlyTools : List ToolId := []

/-- The records a policy is assembled from, at one moment. -/
structure Layers where
  globalPolicy : Option PolicyRecord := none
  workspace : WorkspaceId → OwnerId → Option PolicyRecord
  named : String → Option PolicyRecord
  platform : Option PlatformPermissions := none
  /-- The revision of a combination, from the digest of its parts. -/
  digest : Policy → Policy → String → Nat

/-- Whose policy is asked for. -/
structure Access where
  ownerId : OwnerId
  workspaceId : Option WorkspaceId

/-- The rule by which every combination takes the stricter egress. -/
def Policy.meetEgress (p : Policy) (egress : Option Egress) (domains : Finset String) : Policy :=
  if p.egress = .localOnly ∨ egress = some .localOnly then { p with egress := .localOnly }
  else if p.egress = .domainAllowlist ∨ egress = some .domainAllowlist then
    { p with
      egress := .domainAllowlist
      domains :=
        if p.egress = .domainAllowlist then
          if egress = some .domainAllowlist then p.domains ∩ domains else p.domains
        else domains }
  else p

/-- The combination that `current` and `for_agent` make: the keys of the first policy where the
second has no say. -/
def Policy.combine (p q : Policy) (revision : Nat) : Policy :=
  { p.meetEgress (some q.egress) q.domains with
    capabilities := p.capabilities ∩ q.capabilities
    approvalEffects := p.approvalEffects ∪ q.approvalEffects
    trustedLocalExecution := p.trustedLocalExecution && q.trustedLocalExecution
    revision }

/-- The capabilities that the permissions of the platform leave. -/
def Permissions.keep (cap : Permissions) (capabilities : Finset String) : Finset String :=
  capabilities.filter fun c => (c = "network" → cap.network = true) ∧
    (c = "process" → cap.process = true) ∧ (c = "file_write" → cap.workspaceWrite = true)

/-- `_environment_cap`. -/
def Layers.environmentCap (layers : Layers) (policy : Policy) : Policy :=
  match layers.platform with
  | none => policy
  | some record =>
      let cap := record.permissions
      { policy with
        capabilities := cap.keep policy.capabilities
        trustedLocalExecution := policy.trustedLocalExecution && cap.process
        platformNetwork := some cap.network
        platformProcess := some cap.process
        revision := record.revision * 1000000000000 + policy.revision
        platformAllowedHosts :=
          if cap.allowedHosts = ∅ then policy.platformAllowedHosts
          else if policy.egress = .domainAllowlist then some (cap.allowedHosts ∩ policy.domains)
          else some cap.allowedHosts }

/-- `PolicyEngine.current`. -/
def Layers.current (layers : Layers) (who : Access) : Except HarnessError Policy :=
  let globalPolicy := (layers.globalPolicy.getD {}).fill
  match who.workspaceId with
  | none => .ok (layers.environmentCap globalPolicy)
  | some workspace => do
      let record ← orThrow (layers.workspace workspace who.ownerId)
        { code := .notFound, message := "工作区不存在", status := 404 }
      let own := record.fill
      .ok (layers.environmentCap
        (own.combine globalPolicy (globalPolicy.revision * 1000000 + own.revision)))

/-- `PolicyEngine.for_agent`. -/
def Layers.forAgent (layers : Layers) (who : Access) (policyRef : String) :
    Except HarnessError Policy := do
  let base ← layers.current who
  if policyRef = "default" then .ok base
  else
    let record ← orThrow (layers.named policyRef)
      { code := .policyNotFound, message := "Agent 引用的权限策略不存在或已撤销", status := 403 }
    let named := record.fill
    .ok (base.combine named (layers.digest base named policyRef))

/-- `PLAN_CAPABILITIES`. -/
def planCapabilities : Finset String := {"file_read", "network", "input", "delegate", "mcp"}

/-- `PolicyEngine.effective`. -/
def Layers.effective (layers : Layers) (who : Access) (snapshot : Snapshot) :
    Except HarnessError Policy := do
  let current ← layers.forAgent who snapshot.policyRef
  let frozen := snapshot.policy.getD current.freeze
  let granted := current.capabilities ∩ frozen.capabilities.getD ∅
  .ok { current.meetEgress frozen.egress (frozen.domains.getD ∅) with
    capabilities := if snapshot.mode = .plan then granted ∩ planCapabilities else granted
    approvalEffects := current.approvalEffects ∪ frozen.approvalEffects.getD ∅
    platformNetwork :=
      some (current.platformNetwork.getD true && frozen.platformNetwork.getD true)
    platformProcess :=
      some (current.platformProcess.getD true && frozen.platformProcess.getD true)
    trustedLocalExecution :=
      current.trustedLocalExecution && frozen.trustedLocalExecution.getD true
    platformAllowedHosts :=
      match current.platformAllowedHosts, frozen.platformAllowedHosts with
      | some hosts, some frozenHosts => some (hosts ∩ frozenHosts)
      | some hosts, none => some hosts
      | none, hosts => hosts }

/-! ## Decisions -/

inductive Verdict where
  | allow | approval | deny
deriving DecidableEq, Repr

/-- What `decide` returns. -/
structure Decision where
  decision : Verdict
  reason : String
  policyRevision : Nat
deriving DecidableEq, Repr

/-- The capabilities a tool needs: an enabled server counts as the capability `mcp`. -/
def ToolSpec.required (spec : ToolSpec) (snapshot : Snapshot) : List String :=
  spec.requiredCapabilities.map fun c =>
    if ∃ server ∈ snapshot.mcpServers, c = "mcp:" ++ server then "mcp" else c

/-- `PolicyEngine.decide`, given the effective policy. -/
def Policy.decide (policy : Policy) (snapshot : Snapshot) (spec : ToolSpec) : Decision :=
  if ¬∀ c ∈ spec.required snapshot, c ∈ policy.capabilities then
    { decision := .deny, reason := "工具能力超出当前有效权限", policyRevision := policy.revision }
  else if spec.effect = .process ∧ policy.trustedLocalExecution = false then
    { decision := .deny, reason := "未启用可信本机执行模式", policyRevision := policy.revision }
  else if spec.effect ∈ policy.approvalEffects ∨ spec.id = .requestApproval then
    { decision := .approval, reason := "需要批准具体操作", policyRevision := policy.revision }
  else { decision := .allow, reason := "在当前授权范围内", policyRevision := policy.revision }

/-! ## Delegation -/

/-- The snapshot that `delegate` makes for a child, given the effective policy of the parent. -/
def Snapshot.delegate (snapshot : Snapshot) (effective : Policy)
    (capabilities : Option (Finset String)) : Except HarnessError Snapshot := do
  let requested := capabilities.getD effective.capabilities
  require (requested ⊆ effective.capabilities)
    { code := .childPermission, message := "子任务权限不能超过父任务", status := 403 }
  let policy ← orThrow snapshot.policy { code := .valueError, message := "policy" }
  .ok { snapshot with policy := some { policy with capabilities := some requested } }

end MiHarness

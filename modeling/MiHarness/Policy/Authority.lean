import Mathlib.Data.Set.Lattice
import Mathlib.Logic.Relation
import MiHarness.Policy.Engine

/-!
# The authority of a policy

What a policy lets a run do, as one ordered value: its capabilities, the effects it may have
unasked, how far it may send and to which destinations and hosts, and the flags it holds.  A
smaller authority is allowed less in every respect.  Every layer of the engine denotes an
authority, and the effective policy is below each of them.
-/

namespace MiHarness

open Library

/-! ## Authorities and their order -/

/-- How far an egress lets data go. -/
def Egress.width : Egress → Nat
  | .localOnly => 0
  | .domainAllowlist => 1
  | .cloudAllowed => 2

/-- The destinations an egress with its allowed domains leaves. -/
def Egress.destinations (domains : Finset String) : Egress → Set String
  | .localOnly => ∅
  | .domainAllowlist => {d | d ∈ domains}
  | .cloudAllowed => Set.univ

@[ext] structure Authority where
  capabilities : Set String
  /-- The effects that need no approval. -/
  unasked : Set Effect
  width : Nat
  destinations : Set String
  hosts : Set String
  network : Prop
  process : Prop
  trusted : Prop

namespace Authority

/-- One authority allows no more than another. -/
structure Within (a b : Authority) : Prop where
  capabilities : a.capabilities ⊆ b.capabilities
  unasked : a.unasked ⊆ b.unasked
  width : a.width ≤ b.width
  destinations : a.destinations ⊆ b.destinations
  hosts : a.hosts ⊆ b.hosts
  network : a.network → b.network
  process : a.process → b.process
  trusted : a.trusted → b.trusted

instance : PartialOrder Authority where
  le := Within
  le_refl _ := ⟨Set.Subset.rfl, Set.Subset.rfl, le_rfl, Set.Subset.rfl, Set.Subset.rfl, id, id, id⟩
  le_trans a b c h k :=
    ⟨h.capabilities.trans k.capabilities, h.unasked.trans k.unasked, h.width.trans k.width,
      h.destinations.trans k.destinations, h.hosts.trans k.hosts, k.network ∘ h.network,
      k.process ∘ h.process, k.trusted ∘ h.trusted⟩
  le_antisymm a b h k := by
    refine Authority.ext (h.capabilities.antisymm k.capabilities) (h.unasked.antisymm k.unasked)
      (h.width.antisymm k.width) (h.destinations.antisymm k.destinations)
      (h.hosts.antisymm k.hosts) ?_ ?_ ?_
    · exact propext ⟨h.network, k.network⟩
    · exact propext ⟨h.process, k.process⟩
    · exact propext ⟨h.trusted, k.trusted⟩

/-- The authority that nothing limits. -/
def unlimited : Authority where
  capabilities := Set.univ
  unasked := Set.univ
  width := Egress.cloudAllowed.width
  destinations := Set.univ
  hosts := Set.univ
  network := True
  process := True
  trusted := True

end Authority

/-! ## The authority of each layer -/

/-- The hosts a list leaves, all of them without a list. -/
def hostsOf (hosts : Option (Finset String)) : Set String :=
  {h | ∀ list ∈ hosts, h ∈ list}

def Policy.authority (p : Policy) : Authority where
  capabilities := {c | c ∈ p.capabilities}
  unasked := {e | e ∉ p.approvalEffects}
  width := p.egress.width
  destinations := p.egress.destinations p.domains
  hosts := hostsOf p.platformAllowedHosts
  network := p.platformNetwork.getD true = true
  process := p.platformProcess.getD true = true
  trusted := p.trustedLocalExecution = true

/-- A stored policy means what it means with the defaults filled in. -/
def PolicyRecord.authority (r : PolicyRecord) : Authority := r.fill.authority

/-- A frozen policy grants no capability it does not list, and limits nothing else that it does
not mention. -/
def FrozenPolicy.authority (f : FrozenPolicy) : Authority where
  capabilities := {c | c ∈ f.capabilities.getD ∅}
  unasked := {e | e ∉ f.approvalEffects.getD ∅}
  width := (f.egress.getD .cloudAllowed).width
  destinations := (f.egress.getD .cloudAllowed).destinations (f.domains.getD ∅)
  hosts := hostsOf f.platformAllowedHosts
  network := f.platformNetwork.getD true = true
  process := f.platformProcess.getD true = true
  trusted := f.trustedLocalExecution.getD true = true

/-- An empty list of hosts limits none. -/
def Permissions.authority (cap : Permissions) : Authority :=
  { Authority.unlimited with
    capabilities := {c | (c = "network" → cap.network = true) ∧
      (c = "process" → cap.process = true) ∧ (c = "file_write" → cap.workspaceWrite = true)}
    hosts := {h | cap.allowedHosts ≠ ∅ → h ∈ cap.allowedHosts}
    network := cap.network = true
    process := cap.process = true
    trusted := cap.process = true }

def Mode.authority (mode : Mode) : Authority :=
  { Authority.unlimited with capabilities := {c | mode = .plan → c ∈ planCapabilities} }

/-! ## Combinations -/

theorem Egress.width_le (e : Egress) : e.width ≤ Egress.cloudAllowed.width := by
  cases e <;> decide

theorem Policy.meetEgress_width (p : Policy) (e : Option Egress) (domains : Finset String) :
    (p.meetEgress e domains).egress.width ≤ p.egress.width ∧
      (p.meetEgress e domains).egress.width ≤ (e.getD .cloudAllowed).width := by
  unfold meetEgress
  rcases e with _ | e
  · cases hp : p.egress <;> simp [Egress.width, hp]
  · cases hp : p.egress <;> cases e <;> simp [Egress.width, hp]

theorem Policy.meetEgress_destinations (p : Policy) (e : Option Egress) (domains : Finset String) :
    (p.meetEgress e domains).egress.destinations (p.meetEgress e domains).domains ⊆
        p.egress.destinations p.domains ∧
      (p.meetEgress e domains).egress.destinations (p.meetEgress e domains).domains ⊆
        (e.getD .cloudAllowed).destinations domains := by
  unfold meetEgress
  rcases e with _ | e
  · cases hp : p.egress <;> simp [Egress.destinations, hp]
  · cases hp : p.egress <;> cases e <;> simp [Egress.destinations, hp]
    -- both are lists: the domains on both are left
    exact ⟨fun _ hd => hd.1, fun _ hd => hd.2⟩

/-- A policy with the egress of a combination is below the policy combined, when its other
fields are. -/
theorem Policy.le_of_meetEgress {p q : Policy} {e : Option Egress} {domains : Finset String}
    (egress : q.egress = (p.meetEgress e domains).egress)
    (listed : q.domains = (p.meetEgress e domains).domains)
    (capabilities : q.capabilities ⊆ p.capabilities)
    (unasked : p.approvalEffects ⊆ q.approvalEffects)
    (hosts : hostsOf q.platformAllowedHosts ⊆ hostsOf p.platformAllowedHosts)
    (network : q.platformNetwork.getD true = true → p.platformNetwork.getD true = true)
    (process : q.platformProcess.getD true = true → p.platformProcess.getD true = true)
    (trusted : q.trustedLocalExecution = true → p.trustedLocalExecution = true) :
    q.authority ≤ p.authority where
  capabilities _ hc := capabilities hc
  unasked _ he hp := he (unasked hp)
  width := by
    show q.egress.width ≤ _
    exact egress ▸ (p.meetEgress_width e domains).1
  destinations := by
    show q.egress.destinations q.domains ⊆ _
    rw [egress, listed]
    exact (p.meetEgress_destinations e domains).1
  hosts := hosts
  network := network
  process := process
  trusted := trusted

/-- It is below the other side of the combination as well. -/
theorem Policy.le_of_meetEgress_right {p q : Policy} {e : Option Egress} {domains : Finset String}
    {b : Authority} (egress : q.egress = (p.meetEgress e domains).egress)
    (listed : q.domains = (p.meetEgress e domains).domains)
    (width : (e.getD .cloudAllowed).width = b.width)
    (destinations : (e.getD .cloudAllowed).destinations domains = b.destinations)
    (capabilities : q.authority.capabilities ⊆ b.capabilities)
    (unasked : q.authority.unasked ⊆ b.unasked) (hosts : q.authority.hosts ⊆ b.hosts)
    (network : q.authority.network → b.network) (process : q.authority.process → b.process)
    (trusted : q.authority.trusted → b.trusted) : q.authority ≤ b where
  capabilities := capabilities
  unasked := unasked
  width := by
    show q.egress.width ≤ _
    exact egress ▸ width ▸ (p.meetEgress_width e domains).2
  destinations := by
    show q.egress.destinations q.domains ⊆ _
    rw [egress, listed, ← destinations]
    exact (p.meetEgress_destinations e domains).2
  hosts := hosts
  network := network
  process := process
  trusted := trusted

/-- The platform keys are not there yet. -/
structure Policy.Plain (p : Policy) : Prop where
  network : p.platformNetwork = none
  process : p.platformProcess = none
  hosts : p.platformAllowedHosts = none

theorem PolicyRecord.fill_plain (r : PolicyRecord) : r.fill.Plain := ⟨rfl, rfl, rfl⟩

theorem Policy.meetEgress_platform (p : Policy) (e : Option Egress) (domains : Finset String) :
    (p.meetEgress e domains).platformNetwork = p.platformNetwork ∧
      (p.meetEgress e domains).platformProcess = p.platformProcess ∧
      (p.meetEgress e domains).platformAllowedHosts = p.platformAllowedHosts := by
  unfold meetEgress
  split
  · exact ⟨rfl, rfl, rfl⟩
  · split <;> exact ⟨rfl, rfl, rfl⟩

/-- The cap of the environment only takes away. -/
theorem Layers.environmentCap_le {layers : Layers} {p : Policy} (plain : p.Plain) :
    (layers.environmentCap p).authority ≤ p.authority ∧
      ∀ record ∈ layers.platform,
        (layers.environmentCap p).authority ≤ record.permissions.authority := by
  unfold environmentCap
  cases layers.platform with
  | none => exact ⟨le_rfl, by simp⟩
  | some record =>
      refine ⟨⟨?_, Set.Subset.rfl, le_rfl, Set.Subset.rfl, ?_, ?_, ?_, ?_⟩, ?_⟩
      · exact fun c hc => (Finset.mem_filter.mp hc).1
      · intro h _ list hlist
        rw [plain.hosts] at hlist
        cases hlist
      · intro _
        simp [Policy.authority, plain.network]
      · intro _
        simp [Policy.authority, plain.process]
      · exact fun trusted => (Bool.and_eq_true_iff.mp trusted).1
      rintro _ ⟨⟩
      refine ⟨?_, Set.subset_univ _, Egress.width_le _, Set.subset_univ _, ?_, id, id, ?_⟩
      · exact fun c hc => (Finset.mem_filter.mp hc).2
      · intro h hh listed
        have hosts := hh
        simp only [Policy.authority, hostsOf, if_neg listed] at hosts
        split at hosts
        · exact (Finset.mem_inter.mp (hosts _ rfl)).1
        · exact hosts _ rfl
      · exact fun trusted => (Bool.and_eq_true_iff.mp trusted).2

theorem Policy.combine_le (p q : Policy) (revision : Nat) :
    (p.combine q revision).authority ≤ p.authority := by
  have keys := p.meetEgress_platform (some q.egress) q.domains
  refine Policy.le_of_meetEgress rfl rfl Finset.inter_subset_left Finset.subset_union_left ?_ ?_ ?_
    fun h => (Bool.and_eq_true_iff.mp h).1
  · show hostsOf (p.meetEgress (some q.egress) q.domains).platformAllowedHosts ⊆ _
    rw [keys.2.2]
  · show (p.meetEgress (some q.egress) q.domains).platformNetwork.getD true = true → _
    exact keys.1 ▸ id
  · show (p.meetEgress (some q.egress) q.domains).platformProcess.getD true = true → _
    exact keys.2.1 ▸ id

theorem Policy.combine_le_right (p : Policy) {q : Policy} (revision : Nat) (plain : q.Plain) :
    (p.combine q revision).authority ≤ q.authority := by
  refine Policy.le_of_meetEgress_right rfl rfl rfl rfl ?_ ?_ ?_ ?_ ?_ ?_
  · exact fun c hc => Finset.mem_of_mem_inter_right hc
  · exact fun e he asked => he (Finset.mem_union_right _ asked)
  · intro h _ list hlist
    rw [plain.hosts] at hlist
    cases hlist
  · intro _
    simp [Policy.authority, plain.network]
  · intro _
    simp [Policy.authority, plain.process]
  · exact fun trusted => (Bool.and_eq_true_iff.mp trusted).2

/-- The platform keys of a combination are those of the first policy. -/
theorem Policy.Plain.combine {p : Policy} (plain : p.Plain) (q : Policy) (revision : Nat) :
    (p.combine q revision).Plain := by
  have keys := p.meetEgress_platform (some q.egress) q.domains
  exact ⟨keys.1.trans plain.network, keys.2.1.trans plain.process, keys.2.2.trans plain.hosts⟩

/-! ## The layers -/

theorem Layers.current_within {layers : Layers} {who : Access} {p : Policy}
    (h : layers.current who = .ok p) :
    p.authority ≤ (layers.globalPolicy.getD {}).authority ∧
      (∀ w ∈ who.workspaceId, ∃ r ∈ layers.workspace w who.ownerId, p.authority ≤ r.authority) ∧
      ∀ record ∈ layers.platform, p.authority ≤ record.permissions.authority := by
  unfold current at h
  have globalPlain := (layers.globalPolicy.getD {}).fill_plain
  cases hw : who.workspaceId with
  | none =>
      simp only [hw] at h
      cases h
      obtain ⟨below, cap⟩ := layers.environmentCap_le globalPlain
      exact ⟨below, by simp, cap⟩
  | some w =>
      simp only [hw] at h
      obtain ⟨r, hr, h⟩ := bind_eq_ok.mp h
      cases h
      obtain ⟨below, cap⟩ := layers.environmentCap_le (r.fill_plain.combine _ _)
      refine ⟨below.trans (Policy.combine_le_right _ _ globalPlain), ?_, cap⟩
      rintro _ ⟨⟩
      exact ⟨r, orThrow_eq_ok.mp hr, below.trans (Policy.combine_le _ _ _)⟩

theorem Layers.forAgent_within {layers : Layers} {who : Access} {policyRef : String} {p : Policy}
    (h : layers.forAgent who policyRef = .ok p) :
    ∃ base, layers.current who = .ok base ∧ p.authority ≤ base.authority ∧
      (policyRef ≠ "default" → ∃ r ∈ layers.named policyRef, p.authority ≤ r.authority) := by
  unfold forAgent at h
  obtain ⟨base, hbase, h⟩ := bind_eq_ok.mp h
  refine ⟨base, hbase, ?_⟩
  by_cases href : policyRef = "default"
  · rw [if_pos href] at h
    cases h
    exact ⟨le_rfl, fun other => absurd href other⟩
  · rw [if_neg href] at h
    obtain ⟨r, hr, h⟩ := bind_eq_ok.mp h
    cases h
    exact ⟨Policy.combine_le _ _ _, fun _ =>
      ⟨r, orThrow_eq_ok.mp hr, Policy.combine_le_right _ _ r.fill_plain⟩⟩

/-- A list of hosts that is combined with another leaves no more than either. -/
theorem hostsOf_meet (a b : Option (Finset String)) :
    hostsOf (match a, b with
      | some hosts, some frozenHosts => some (hosts ∩ frozenHosts)
      | some hosts, none => some hosts
      | none, hosts => hosts) ⊆ hostsOf a ∩ hostsOf b := by
  cases a <;> cases b <;> intro h hh <;> simp_all [hostsOf]

/-- The policy frozen in a snapshot, or the current one for a snapshot without. -/
def Snapshot.frozen (snapshot : Snapshot) (current : Policy) : FrozenPolicy :=
  snapshot.policy.getD current.freeze

theorem Layers.effective_eq {layers : Layers} {who : Access} {snapshot : Snapshot} {p : Policy}
    (h : layers.effective who snapshot = .ok p) :
    ∃ current, layers.forAgent who snapshot.policyRef = .ok current ∧
      p.authority ≤ current.authority ∧ p.authority ≤ (snapshot.frozen current).authority ∧
      p.authority ≤ snapshot.mode.authority := by
  unfold effective at h
  obtain ⟨current, hcurrent, h⟩ := bind_eq_ok.mp h
  cases h
  have hosts := hostsOf_meet current.platformAllowedHosts
    (snapshot.policy.getD current.freeze).platformAllowedHosts
  have granted : ∀ {s : Finset String} {c : String},
      c ∈ (if snapshot.mode = .plan then s ∩ planCapabilities else s) → c ∈ s := by
    intro s c hc
    split at hc
    · exact Finset.mem_of_mem_inter_left hc
    · exact hc
  refine ⟨current, hcurrent, ?_, ?_, ?_⟩
  · refine Policy.le_of_meetEgress rfl rfl ?_ Finset.subset_union_left
      (hosts.trans Set.inter_subset_left) ?_ ?_ fun h => (Bool.and_eq_true_iff.mp h).1
    · exact fun c hc => Finset.mem_of_mem_inter_left (granted hc)
    · exact fun h => (Bool.and_eq_true_iff.mp h).1
    · exact fun h => (Bool.and_eq_true_iff.mp h).1
  · refine Policy.le_of_meetEgress_right rfl rfl rfl rfl ?_ ?_ (hosts.trans Set.inter_subset_right)
      ?_ ?_ fun h => (Bool.and_eq_true_iff.mp h).2
    · exact fun c hc => Finset.mem_of_mem_inter_right (granted hc)
    · exact fun e he asked => he (Finset.mem_union_right _ asked)
    · exact fun h => (Bool.and_eq_true_iff.mp h).2
    · exact fun h => (Bool.and_eq_true_iff.mp h).2
  · refine ⟨fun c hc plan => ?_, Set.subset_univ _, Egress.width_le _, Set.subset_univ _,
      Set.subset_univ _, fun _ => trivial, fun _ => trivial, fun _ => trivial⟩
    have inPlan : c ∈ (if snapshot.mode = .plan then _ ∩ planCapabilities else _) := hc
    rw [if_pos plan] at inPlan
    exact Finset.mem_of_mem_inter_right inPlan

/-! ## Delegation -/

/-- At some moment a run with the one snapshot delegates to a child with the other. -/
def Snapshot.Delegates (who : Access) (snapshot child : Snapshot) : Prop :=
  ∃ (layers : Layers) (policy : Policy) (capabilities : Option (Finset String)),
    layers.effective who snapshot = .ok policy ∧ snapshot.delegate policy capabilities = .ok child

/-- A child differs from its parent in the capabilities frozen for it, which are some of those
frozen for the parent. -/
theorem Snapshot.Delegates.narrows {who : Access} {snapshot child : Snapshot}
    (h : snapshot.Delegates who child) : ∃ frozen requested, snapshot.policy = some frozen ∧
      requested ⊆ frozen.capabilities.getD ∅ ∧
      child = { snapshot with policy := some { frozen with capabilities := some requested } } := by
  obtain ⟨layers, policy, capabilities, heffective, h⟩ := h
  unfold delegate at h
  obtain ⟨_, hrequested, h⟩ := bind_eq_ok.mp h
  obtain ⟨frozen, hfrozen, h⟩ := bind_eq_ok.mp h
  cases h
  have hpolicy : snapshot.policy = some frozen := orThrow_eq_ok.mp hfrozen
  obtain ⟨current, _, _, within, _⟩ := Layers.effective_eq heffective
  refine ⟨frozen, _, hpolicy, fun c hc => ?_, rfl⟩
  have held : c ∈ policy.capabilities := require_eq_ok.mp hrequested hc
  have own : c ∈ (snapshot.frozen current).capabilities.getD ∅ := within.capabilities held
  rwa [Snapshot.frozen, hpolicy] at own

/-- Evaluated at one moment, the policy of a child is below that of its parent. -/
theorem Layers.effective_child {layers : Layers} {who : Access} {snapshot child : Snapshot}
    {p : Policy} (h : layers.effective who snapshot = .ok p) (d : snapshot.Delegates who child) :
    ∃ q, layers.effective who child = .ok q ∧ q.authority ≤ p.authority := by
  obtain ⟨frozen, requested, hpolicy, hrequested, rfl⟩ := d.narrows
  unfold effective at h ⊢
  obtain ⟨current, hcurrent, h⟩ := bind_eq_ok.mp h
  cases h
  refine ⟨_, by rw [hcurrent]; rfl, ?_⟩
  simp only [hpolicy, Option.getD_some]
  refine ⟨fun c hc => ?_, Set.Subset.rfl, le_rfl, Set.Subset.rfl, Set.Subset.rfl, id, id, id⟩
  have kept : current.capabilities ∩ requested ⊆
      current.capabilities ∩ frozen.capabilities.getD ∅ :=
    Finset.inter_subset_inter_left hrequested
  by_cases plan : snapshot.mode = .plan
  · simp only [Policy.authority, if_pos plan] at hc ⊢
    have both := Finset.mem_inter.mp hc
    exact Finset.mem_inter.mpr ⟨kept both.1, both.2⟩
  · simp only [Policy.authority, if_neg plan] at hc ⊢
    exact kept hc

/-- The effective policy is below every layer, and along every chain of delegations each run's
is below that of the run the chain starts from, evaluated at the same moment. -/
theorem effective_within {layers : Layers} {who : Access} {snapshot : Snapshot} {p : Policy}
    (h : layers.effective who snapshot = .ok p) :
    p.authority ≤ (layers.globalPolicy.getD {}).authority ∧
      (∀ w ∈ who.workspaceId, ∃ r ∈ layers.workspace w who.ownerId, p.authority ≤ r.authority) ∧
      (snapshot.policyRef ≠ "default" →
        ∃ r ∈ layers.named snapshot.policyRef, p.authority ≤ r.authority) ∧
      (∀ frozen ∈ snapshot.policy, p.authority ≤ frozen.authority) ∧
      (∀ record ∈ layers.platform, p.authority ≤ record.permissions.authority) ∧
      p.authority ≤ snapshot.mode.authority ∧
      ∀ child, Relation.ReflTransGen (Snapshot.Delegates who) snapshot child →
        ∃ q, layers.effective who child = .ok q ∧ q.authority ≤ p.authority := by
  obtain ⟨current, hcurrent, below, frozen, mode⟩ := Layers.effective_eq h
  obtain ⟨base, hbase, belowBase, named⟩ := Layers.forAgent_within hcurrent
  obtain ⟨globalLayer, workspace, platform⟩ := Layers.current_within hbase
  have lower : p.authority ≤ base.authority := below.trans belowBase
  refine ⟨lower.trans globalLayer, fun w hw => ?_, fun href => ?_, fun f hf => ?_,
    fun record hrecord => lower.trans (platform record hrecord), mode, fun child chain => ?_⟩
  · obtain ⟨r, hr, hle⟩ := workspace w hw
    exact ⟨r, hr, lower.trans hle⟩
  · obtain ⟨r, hr, hle⟩ := named href
    exact ⟨r, hr, below.trans hle⟩
  · rwa [Snapshot.frozen, Option.mem_def.mp hf] at frozen
  · induction chain with
    | refl => exact ⟨p, h, le_rfl⟩
    | tail _ step ih =>
        obtain ⟨q, hq, hle⟩ := ih
        obtain ⟨q', hq', hle'⟩ := Layers.effective_child hq step
        exact ⟨q', hq', hle'.trans hle⟩

/-- Records of which only the workspace's narrows the defaults: it keeps its data local. -/
def localLayers : Layers where
  workspace := fun _ _ => some { egress := some .localOnly }
  named := fun _ => none
  digest := fun _ _ _ => 0

/-- A run in that workspace. -/
def localAccess : Access := { ownerId := 1, workspaceId := some 2 }

/-- It was submitted with the defaults. -/
def defaultSnapshot : Snapshot := { policy := some defaultPolicy.freeze }

theorem effective_within_local :
    ∃ p, localLayers.effective localAccess defaultSnapshot = .ok p ∧ p.egress = .localOnly ∧
      p.authority ≤ defaultPolicy.freeze.authority := by
  have h : ∃ p, localLayers.effective localAccess defaultSnapshot = .ok p ∧
      p.egress = .localOnly := ⟨_, rfl, rfl⟩
  obtain ⟨p, hp, localOnly⟩ := h
  exact ⟨p, hp, localOnly, (effective_within hp).2.2.2.1 _ rfl⟩

end MiHarness

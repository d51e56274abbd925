import MiHarness.Scheduler.Books

/-!
# Delegation

A delegation creates a run under a key and pays for it with one unit of the account of the root.
`Delegations` is what holds between transactions: keys, delegated runs and paid reservations
correspond, no run is deeper than the configuration allows, and the units an account has consumed
count the delegated runs of its tree.

`delegateTables` is the transaction of `delegate` with all the tables it writes.
-/

namespace MiHarness

open Library

variable {host : Host} {s s' t : Store} {now : Time}

/-! ## The children of an account -/

/-- The part of an account that is about children. -/
def Account.childrenPart (a : Account) : Amount × Rat × Rat :=
  (a.limits, a.consumed .children, a.reserved .children)

namespace Ledger

variable {l l' l'' : Ledger}

/-- Only reservations for children ask for children. -/
def ToolsApart (l : Ledger) : Prop :=
  ∀ key r, l.reservations.get? key = some r → (∀ child, key ≠ .child child) → .children ∉ r.amount

/-- Two ledgers say the same about children. -/
structure SameChildren (l l' : Ledger) : Prop where
  accounts : ∀ id, (l'.accounts.get? id).map Account.childrenPart =
    (l.accounts.get? id).map Account.childrenPart
  reservations : ∀ key, l'.reservations.get? (.child key) = l.reservations.get? (.child key)

theorem SameChildren.refl : SameChildren l l := ⟨fun _ => rfl, fun _ => rfl⟩

theorem SameChildren.trans (h : SameChildren l l') (k : SameChildren l' l'') :
    SameChildren l l'' :=
  ⟨fun id => (k.accounts id).trans (h.accounts id),
    fun key => (k.reservations key).trans (h.reservations key)⟩

/-- Changing one account in the other dimensions says nothing about children. -/
theorem childrenPart_modify {id id' : RunId} {f : Account → Account}
    (same : ∀ a, (f a).childrenPart = a.childrenPart) :
    ((l.accounts.modify id f).get? id').map Account.childrenPart =
      (l.accounts.get? id').map Account.childrenPart := by
  rw [Table.get?_modify]
  split
  · rw [Option.map_map]
    exact congrFun (congrArg Option.map (funext same)) _
  · rfl

theorem call_forTools {call : Call} (apart : l.ToolsApart) (forTools : call.forTools)
    (h : l.perform call = .ok l') : l'.ToolsApart ∧ SameChildren l l' := by
  cases call with
  | addAccount id limits => cases forTools
  | reserve id key amount =>
      obtain ⟨tool, plain⟩ := forTools
      rcases reserve_eq_ok h with ⟨saved, -, -, -, rfl⟩ | ⟨a, reservations, -, -, -, hinsert, rfl⟩
      · exact ⟨apart, .refl⟩
      obtain ⟨-, read⟩ := Table.insert?_eq_some hinsert
      refine ⟨fun key' r hr other => ?_, fun id' => ?_, fun key' => ?_⟩
      · rw [read] at hr
        split at hr
        · cases hr
          exact plain
        · exact apart key' r hr other
      · refine childrenPart_modify fun a => ?_
        simp [hold, Account.childrenPart, Amount.at_of_not_mem plain]
      · rw [read, if_neg (tool key').symm]
  | settle key actual =>
      obtain ⟨saved, hsaved, ⟨-, -, rfl⟩ | ⟨-, -, rfl⟩ | ⟨-, use, a, -, -, -, rfl⟩⟩ := settle_eq_ok h
      · exact ⟨apart, .refl⟩
      · refine ⟨fun key' r hr other => ?_, fun _ => rfl, fun key' => ?_⟩
        · rw [Table.get?_modify] at hr
          split at hr
          · obtain ⟨r', hr', rfl⟩ := Option.map_eq_some_iff.mp hr
            exact apart key' r' hr' other
          · exact apart key' r hr other
        · exact Table.get?_modify_ne _ _ (forTools key').symm
      · have plain := apart key saved hsaved forTools
        refine ⟨fun key' r hr other => ?_, fun id => ?_, fun key' => ?_⟩
        · rw [Table.get?_modify] at hr
          split at hr
          · obtain ⟨r', hr', rfl⟩ := Option.map_eq_some_iff.mp hr
            exact apart key' r' hr' other
          · exact apart key' r hr other
        · refine childrenPart_modify fun a => ?_
          simp [release, Account.childrenPart, Amount.at_of_not_mem plain, plain]
        · exact Table.get?_modify_ne _ _ (forTools key').symm

/-- The calls for tools leave the children alone. -/
theorem Billed.children (apart : l.ToolsApart) (h : l.Billed l') :
    l'.ToolsApart ∧ SameChildren l l' := by
  induction h with
  | refl => exact ⟨apart, .refl⟩
  | tail _ call ih =>
      obtain ⟨call, forTools, hcall⟩ := call
      obtain ⟨apart', same⟩ := call_forTools ih.1 forTools hcall
      exact ⟨apart', ih.2.trans same⟩

theorem at_single (dim : Dimension) (value : Rat) : (Amount.single dim value).at dim = value := by
  rw [Amount.at, Amount.single, Finmap.lookup_singleton_eq]
  rfl

theorem mem_single {dim dim' : Dimension} {value : Rat} :
    dim' ∈ Amount.single dim value ↔ dim' = dim :=
  Finmap.mem_singleton ..

/-- What an account has paid for a child. -/
structure PaysChild (l l' : Ledger) (root : RunId) (key : OperationKey) (a : Account) : Prop where
  account : l.accounts.get? root = some a
  within : ∀ limit ∈ a.limits.lookup .children,
    a.reserved .children + a.consumed .children + 1 ≤ limit
  apart : l'.ToolsApart
  accounts : ∀ id, (l'.accounts.get? id).map Account.childrenPart =
    if id = root then some (a.limits, a.consumed .children + 1, a.reserved .children)
    else (l.accounts.get? id).map Account.childrenPart
  reservations : ∀ key', (l'.reservations.get? (.child key')).isSome →
    key' = key ∨ (l.reservations.get? (.child key')).isSome

theorem paysChild {root : RunId} {key : OperationKey} (apart : l.ToolsApart)
    (fresh : l.reservations.get? (.child key) = none)
    (hreserve : l.reserve root (.child key) (Items.single .children 1) = .ok l')
    (hsettle : l'.settle (.child key) (some (Amount.single .children 1)) = .ok l'') :
    ∃ a, PaysChild l l'' root key a := by
  rcases reserve_eq_ok hreserve with ⟨saved, hsaved, -⟩ |
    ⟨a, reservations, ha, -, within, hinsert, rfl⟩
  · cases fresh.symm.trans hsaved
  rw [Items.amount_single] at within hinsert hsettle
  obtain ⟨-, read⟩ := Table.insert?_eq_some hinsert
  have held := read (.child key)
  rw [if_pos rfl] at held
  obtain ⟨saved, hsaved, hcase⟩ := settle_eq_ok hsettle
  cases held.symm.trans hsaved
  rcases hcase with ⟨settled, -⟩ | ⟨-, unknown, -⟩ | ⟨-, use, a', huse, ha', -, rfl⟩
  · cases settled
  · cases unknown
  cases huse
  refine ⟨a, ha, fun limit hlimit => ?_, fun key' r hr other => ?_, fun id => ?_,
    fun key' hkey' => ?_⟩
  · have bound := within .children (Finmap.mem_keys.mpr (mem_single.mpr rfl)) limit hlimit
    rwa [at_single] at bound
  · rw [Table.get?_modify, if_neg (other key), read, if_neg (other key)] at hr
    exact apart key' r hr other
  · dsimp only
    rw [Table.get?_modify, Table.get?_modify]
    split
    · rename_i same
      subst same
      rw [ha]
      simp [hold, release, Account.childrenPart, at_single, mem_single]
    · rfl
  · rw [Table.get?_modify, read] at hkey'
    by_cases same : key' = key
    · exact .inl same
    · have other : ReservationKey.child key' ≠ .child key := fun e =>
        same (ReservationKey.child.inj e)
      rw [if_neg other, if_neg other] at hkey'
      exact .inr hkey'

theorem PaysChild.opened {root id : RunId} {key : OperationKey} {a : Account}
    (pays : PaysChild l l' root key a) (open' : (∃ a, l.accounts.get? id = some a) ∨ id = root) :
    ∃ a, l'.accounts.get? id = some a := by
  have part := pays.accounts id
  split at part
  · obtain ⟨a', ha', -⟩ := Option.map_eq_some_iff.mp part
    exact ⟨a', ha'⟩
  · rename_i other
    obtain ⟨a, ha⟩ := open'.resolve_right other
    rw [ha, Option.map_some] at part
    obtain ⟨a', ha', -⟩ := Option.map_eq_some_iff.mp part
    exact ⟨a', ha'⟩

/-- Where the consumed units of each account count something, they count one more after the payment. -/
theorem PaysChild.counted {root : RunId} {key : OperationKey} {a : Account} {units : RunId → Nat}
    (pays : PaysChild l l' root key a)
    (counted : ∀ id a, l.accounts.get? id = some a → a.consumed .children = units id ∧
      a.reserved .children = 0 ∧
        ∀ limit ∈ a.limits.lookup .children, units id = 0 ∨ (units id : Rat) ≤ limit)
    {id : RunId} {a' : Account} (ha' : l'.accounts.get? id = some a') {n : Nat}
    (one : n = units id + if id = root then 1 else 0) :
    a'.consumed .children = n ∧ a'.reserved .children = 0 ∧
      ∀ limit ∈ a'.limits.lookup .children, n = 0 ∨ (n : Rat) ≤ limit := by
  have part := pays.accounts id
  rw [ha', Option.map_some, Account.childrenPart] at part
  rw [one]
  split at part
  · rename_i same
    subst same
    simp only [Option.some.injEq, Prod.mk.injEq] at part
    obtain ⟨limits, consumed, reserved⟩ := part
    obtain ⟨before, none, -⟩ := counted _ a pays.account
    rw [if_pos rfl, limits, consumed, reserved, before]
    refine ⟨by push_cast; rfl, none, fun limit hlimit => .inr ?_⟩
    have bound := pays.within limit hlimit
    rw [none, before] at bound
    push_cast
    linarith
  · rename_i other
    obtain ⟨a₀, ha₀, same⟩ := Option.map_eq_some_iff.mp part.symm
    simp only [Account.childrenPart, Prod.mk.injEq] at same
    obtain ⟨limits, consumed, reserved⟩ := same
    rw [if_neg other, Nat.add_zero, ← limits, ← consumed, ← reserved]
    exact counted id a₀ ha₀

end Ledger

/-! ## The runs of a tree -/

/-- The number of delegated runs under a root. -/
def Store.delegatedUnder (s : Store) (root : RunId) : Nat :=
  (s.runs.select fun _ r => r.rootRunId = root && r.parentRunId.isSome).length

/-- Keys, delegated runs, paid reservations and consumed units correspond. -/
structure Store.Delegations (host : Host) (s : Store) : Prop where
  depth : ∀ rid r, s.runs.get? rid = some r → r.depth ≤ host.maxDepth
  child : ∀ key d, s.dependencies.get? key = some d →
    ∃ r, s.runs.get? d.childId = some r ∧ r.parentRunId = some d.parentId
  once : ∀ key key' d d', s.dependencies.get? key = some d → s.dependencies.get? key' = some d' →
    d.childId = d'.childId → key = key'
  keyed : ∀ rid r, s.runs.get? rid = some r → r.parentRunId.isSome →
    ∃ key d, s.dependencies.get? key = some d ∧ d.childId = rid
  paid : ∀ key, (s.ledger.reservations.get? (.child key)).isSome →
    (s.dependencies.get? key).isSome
  apart : s.ledger.ToolsApart
  accounted : ∀ rid r, s.runs.get? rid = some r → r.parentRunId.isSome →
    ∃ a, s.ledger.accounts.get? r.rootRunId = some a
  counted : ∀ root a, s.ledger.accounts.get? root = some a →
    a.consumed .children = s.delegatedUnder root ∧ a.reserved .children = 0 ∧
      ∀ limit ∈ a.limits.lookup .children,
        s.delegatedUnder root = 0 ∨ (s.delegatedUnder root : Rat) ≤ limit

theorem Store.delegatedUnder_congr (root : RunId)
    (places : ∀ rid, (t.runs.get? rid).map Run.place = (s.runs.get? rid).map Run.place) :
    t.delegatedUnder root = s.delegatedUnder root :=
  Table.length_select_congr (q := fun place => place.1 = root && place.2.1.isSome) Run.place places
    fun _ => rfl

namespace Store.Delegations

/-- What a transaction enters in the books keeps the correspondence. -/
theorem booked (h : s.Delegations host) (booked : Booked s t) : t.Delegations host := by
  obtain ⟨apart, same⟩ := booked.ledger.children h.apart
  have before : ∀ rid r', t.runs.get? rid = some r' →
      ∃ r, s.runs.get? rid = some r ∧ r.place = r'.place := by
    intro rid r' hr'
    have place := booked.places rid
    rw [hr', Option.map_some] at place
    exact Option.map_eq_some_iff.mp place.symm
  have after : ∀ rid r, s.runs.get? rid = some r →
      ∃ r', t.runs.get? rid = some r' ∧ r'.place = r.place := by
    intro rid r hr
    have place := booked.places rid
    rw [hr, Option.map_some] at place
    exact Option.map_eq_some_iff.mp place
  have account : ∀ root a', t.ledger.accounts.get? root = some a' →
      ∃ a, s.ledger.accounts.get? root = some a ∧ a.childrenPart = a'.childrenPart := by
    intro root a' ha'
    have part := same.accounts root
    rw [ha', Option.map_some] at part
    exact Option.map_eq_some_iff.mp part.symm
  refine ⟨fun rid r' hr' => ?_, fun key d hd => ?_, fun key key' d d' hd hd' => ?_,
    fun rid r' hr' delegated => ?_, fun key paid => ?_, apart, fun rid r' hr' delegated => ?_,
    fun root a' ha' => ?_⟩
  · obtain ⟨r, hr, place⟩ := before rid r' hr'
    simp only [Run.place, Prod.mk.injEq] at place
    exact place.2.2.1 ▸ h.depth rid r hr
  · rw [booked.dependencies] at hd
    obtain ⟨r, hr, parent⟩ := h.child key d hd
    obtain ⟨r', hr', place⟩ := after d.childId r hr
    simp only [Run.place, Prod.mk.injEq] at place
    exact ⟨r', hr', place.2.1.trans parent⟩
  · rw [booked.dependencies] at hd hd'
    exact h.once key key' d d' hd hd'
  · obtain ⟨r, hr, place⟩ := before rid r' hr'
    simp only [Run.place, Prod.mk.injEq] at place
    rw [booked.dependencies]
    exact h.keyed rid r hr (place.2.1 ▸ delegated)
  · rw [same.reservations] at paid
    rw [booked.dependencies]
    exact h.paid key paid
  · obtain ⟨r, hr, place⟩ := before rid r' hr'
    simp only [Run.place, Prod.mk.injEq] at place
    obtain ⟨a, ha⟩ := h.accounted rid r hr (place.2.1 ▸ delegated)
    have part := same.accounts r.rootRunId
    rw [ha, Option.map_some] at part
    obtain ⟨a', ha', -⟩ := Option.map_eq_some_iff.mp part
    exact ⟨a', place.1 ▸ ha'⟩
  · obtain ⟨a, ha, part⟩ := account root a' ha'
    simp only [Account.childrenPart, Prod.mk.injEq] at part
    obtain ⟨limits, consumed, reserved⟩ := part
    rw [Store.delegatedUnder_congr root booked.places, ← limits, ← consumed, ← reserved]
    exact h.counted root a ha

theorem insert_before {k k' : RunId} {r : Run} {runs : Table RunId Run}
    (h : s.runs.insert? k r = some runs) {r' : Run} (hr' : s.runs.get? k' = some r') :
    runs.get? k' = some r' := by
  obtain ⟨fresh, read⟩ := Table.insert?_eq_some h
  rw [read, if_neg, hr']
  rintro rfl
  cases fresh.symm.trans hr'

/-- A submitted run opens a tree of its own. -/
theorem submit {owner : OwnerId} {session : SessionId} {request : Submission} {fresh : RunId}
    (h : s.Delegations host) (hsubmit : submit s owner session request fresh now = .ok s') :
    s'.Delegations host := by
  simp only [MiHarness.submit, bind_eq_ok, require_eq_ok, exists_const] at hsubmit
  obtain ⟨-, branch, -, -, t, hadvance, u, hinsert, ledger, haccount, hsubmit⟩ := hsubmit
  cases hsubmit
  obtain rfl := Store.advanceBranch_eq_ok hadvance
  obtain ⟨runs, hruns, rfl⟩ := Store.insertRun_eq_ok hinsert
  obtain ⟨accounts, haccounts, rfl⟩ := Ledger.addAccount_eq_ok haccount
  obtain ⟨-, read⟩ := Table.insert?_eq_some hruns
  obtain ⟨unopened, opened⟩ := Table.insert?_eq_some haccounts
  have count : ∀ root, (runs.select fun _ r => r.rootRunId = root && r.parentRunId.isSome).length =
      s.delegatedUnder root := fun root =>
    Table.length_select_insert? (p := fun r => r.rootRunId = root && r.parentRunId.isSome) hruns
      (by simp)
  refine ⟨fun rid r hr => ?_, fun key d hd => ?_, h.once, fun rid r hr delegated => ?_, h.paid,
    h.apart, fun rid r hr delegated => ?_, fun root a ha => ?_⟩
  · replace hr : runs.get? rid = some r := hr
    rw [read] at hr
    split at hr
    · cases hr
      exact Nat.zero_le _
    · exact h.depth rid r hr
  · obtain ⟨r, hr, parent⟩ := h.child key d hd
    exact ⟨r, insert_before hruns hr, parent⟩
  · replace hr : runs.get? rid = some r := hr
    rw [read] at hr
    split at hr
    · cases hr
      cases delegated
    · exact h.keyed rid r hr delegated
  · replace hr : runs.get? rid = some r := hr
    rw [read] at hr
    split at hr
    · cases hr
      cases delegated
    · obtain ⟨a, ha⟩ := h.accounted rid r hr delegated
      refine ⟨a, (opened r.rootRunId).trans ?_⟩
      rw [if_neg, ha]
      rintro same
      rw [same, unopened] at ha
      cases ha
  · replace ha : accounts.get? root = some a := ha
    show a.consumed .children = (Store.delegatedUnder { s with runs } root : Rat) ∧ _ ∧
      ∀ limit ∈ a.limits.lookup .children, Store.delegatedUnder { s with runs } root = 0 ∨
        (Store.delegatedUnder { s with runs } root : Rat) ≤ limit
    rw [show Store.delegatedUnder { s with runs } root = s.delegatedUnder root from count root]
    rw [opened] at ha
    split at ha
    · rename_i same
      cases ha
      have none : s.delegatedUnder root = 0 := by
        rw [Store.delegatedUnder, List.length_eq_zero_iff, List.eq_nil_iff_forall_not_mem]
        rintro ⟨rid, r⟩ hr
        obtain ⟨hr, delegated⟩ := Table.mem_select.mp hr
        simp only [Bool.and_eq_true, decide_eq_true_eq] at delegated
        obtain ⟨a, ha⟩ := h.accounted rid r hr delegated.2
        rw [delegated.1, same, unopened] at ha
        cases ha
      rw [none]
      exact ⟨rfl, rfl, fun _ _ => .inl rfl⟩
    · exact h.counted root a ha

/-- A new child is paid for and keyed. -/
theorem addChild {ctx : ExecutionContext} {key : OperationKey} {parent : Run}
    {request : DelegateRequest} {ids : DelegateIds} (h : s.Delegations host)
    (fresh : s.dependencies.get? key = none) (shallow : parent.depth < host.maxDepth)
    (hadd : addChild host s ctx key parent request ids now = .ok s') : s'.Delegations host := by
  simp only [MiHarness.addChild, bind_eq_ok] at hadd
  obtain ⟨ledger, hreserve, t, hbranch, u, hinsert, v, hdependency, ledger', hsettle, hadd⟩ := hadd
  cases hadd
  obtain ⟨branches, -, rfl, -⟩ := Store.addBranch_eq_ok hbranch
  obtain ⟨runs, hruns, rfl⟩ := Store.insertRun_eq_ok hinsert
  obtain ⟨dependencies, hdeps, rfl⟩ := Store.addDependency_eq_ok hdependency
  have unpaid : s.ledger.reservations.get? (.child key) = none := by
    cases hsaved : s.ledger.reservations.get? (.child key) with
    | none => rfl
    | some saved =>
        have recorded := h.paid key (by rw [hsaved]; rfl)
        rw [fresh] at recorded
        cases recorded
  obtain ⟨a, pays⟩ := Ledger.paysChild h.apart unpaid hreserve hsettle
  obtain ⟨unused, read⟩ := Table.insert?_eq_some hruns
  obtain ⟨-, keyed⟩ := Table.insert?_eq_some hdeps
  have old : ∀ key' d, s.dependencies.get? key' = some d → d.childId ≠ ids.run := by
    intro key' d hd same
    obtain ⟨r, hr, -⟩ := h.child key' d hd
    rw [same, unused] at hr
    cases hr
  have count : ∀ root, Store.delegatedUnder { s with runs } root =
      s.delegatedUnder root + if root = ctx.rootRunId then 1 else 0 := by
    intro root
    rw [Store.delegatedUnder, Store.delegatedUnder, Table.length_select, Table.length_select,
      Table.total_insert? hruns]
    simp only [childRow, Option.isSome_some, Bool.and_true]
    exact congrArg _ (if_congr (decide_eq_true_iff.trans eq_comm) rfl rfl)
  refine ⟨fun rid r hr => ?_, fun key' d hd => ?_, fun key' key'' d d' hd hd' same => ?_,
    fun rid r hr delegated => ?_, fun key' paid => ?_, pays.apart, fun rid r hr delegated => ?_,
    fun root a' ha' => ?_⟩
  · replace hr : runs.get? rid = some r := hr
    rw [read] at hr
    split at hr
    · cases hr
      exact shallow
    · exact h.depth rid r hr
  · replace hd : dependencies.get? key' = some d := hd
    rw [keyed] at hd
    split at hd
    · cases hd
      exact ⟨childRow ctx parent request ids now, (read ids.run).trans (if_pos rfl), rfl⟩
    · obtain ⟨r, hr, parent⟩ := h.child key' d hd
      exact ⟨r, insert_before hruns hr, parent⟩
  · replace hd : dependencies.get? key' = some d := hd
    replace hd' : dependencies.get? key'' = some d' := hd'
    rw [keyed] at hd hd'
    split at hd
    · rename_i first
      split at hd'
      · rename_i second
        exact first.trans second.symm
      · cases hd
        exact absurd same.symm (old key'' d' hd')
    · split at hd'
      · cases hd'
        exact absurd same (old key' d hd)
      · exact h.once key' key'' d d' hd hd' same
  · replace hr : runs.get? rid = some r := hr
    rw [read] at hr
    split at hr
    · rename_i same
      exact ⟨key, _, (keyed key).trans (if_pos rfl), same.symm⟩
    · obtain ⟨key', d, hd, child⟩ := h.keyed rid r hr delegated
      refine ⟨key', d, (keyed key').trans ?_, child⟩
      rw [if_neg, hd]
      rintro rfl
      cases fresh.symm.trans hd
  · show (dependencies.get? key').isSome = true
    rw [keyed]
    split
    · rfl
    · rename_i other
      exact h.paid key' ((pays.reservations key' paid).resolve_left other)
  · replace hr : runs.get? rid = some r := hr
    rw [read] at hr
    split at hr
    · cases hr
      exact pays.opened (.inr rfl)
    · exact pays.opened (.inl (h.accounted rid r hr delegated))
  · exact pays.counted h.counted ha' (count root)

theorem delegate {ctx : ExecutionContext} {key : OperationKey} {request : DelegateRequest}
    {allowed : List String} {ids : DelegateIds} {child : RunId} (h : s.Delegations host)
    (hdelegate : delegate host s ctx key request allowed ids now = .ok (child, s')) :
    s'.Delegations host := by
  unfold MiHarness.delegate at hdelegate
  obtain ⟨_, -, hbody⟩ := bind_eq_ok.mp hdelegate
  split at hbody
  · simp only [bind_eq_ok, require_eq_ok, exists_const, Except.ok.injEq, Prod.mk.injEq] at hbody
    exact hbody.2.2 ▸ h
  · rename_i fresh
    simp only [bind_eq_ok, require_eq_ok, exists_const, Except.ok.injEq, Prod.mk.injEq] at hbody
    obtain ⟨parent, -, root, -, ⟨-, -, shallow⟩, -, t, hadd, -, rfl⟩ := hbody
    exact h.addChild fresh shallow hadd

end Store.Delegations

/-! ## Runs -/

theorem Store.Delegations.perform {a : Action} (h : s.Delegations host) (bills : a.bills)
    (hperform : a.perform host s now = .ok s') : s'.Delegations host := by
  by_cases creates : a.creates
  · cases a with
    | submit owner session request fresh => exact h.submit hperform
    | delegate ctx key request allowed ids =>
        obtain ⟨⟨child, t⟩, hdelegate, hperform⟩ := bind_eq_ok.mp hperform
        cases hperform
        exact h.delegate hdelegate
    | _ => cases creates
  · exact h.booked (perform_booked bills creates hperform)

theorem Store.Delegations.initial : Store.initial.Delegations host where
  depth _ _ h := by cases h
  child _ _ h := by cases h
  once _ _ _ _ h := by cases h
  keyed _ _ h := by cases h
  paid _ h := by cases h
  apart _ _ h := by cases h
  accounted _ _ h := by cases h
  counted _ _ h := by cases h

/-- The runs in which only `delegate` reserves for children. -/
def delegationSystem (host : Host) : System World Action :=
  (system host).restrict fun _ a => a.bills

theorem reachable_delegations {w : World} (h : (delegationSystem host).Reachable w) :
    w.store.Delegations host := by
  refine h.invariant (I := fun w => w.store.Delegations host) (fun w start => ?_)
    fun w a w' _ delegations step => ?_
  · exact (show w.store = .initial from start) ▸ .initial
  · obtain ⟨bills, step⟩ := step
    rcases World.next_perform step with ⟨later, rfl, -, rfl⟩ | ⟨-, store, hperform, rfl⟩
    · exact delegations
    · exact delegations.perform bills hperform

/-- The child of a key stays its child. -/
theorem dependency_kept {a : Action} {key : OperationKey} {d : Dependency}
    (hd : s.dependencies.get? key = some d) (bills : a.bills)
    (h : a.perform host s now = .ok s') : s'.dependencies.get? key = some d := by
  by_cases creates : a.creates
  · cases a with
    | submit owner session request fresh =>
        simp only [Action.perform, submit, bind_eq_ok, require_eq_ok, exists_const] at h
        obtain ⟨-, branch, -, -, t, hadvance, u, hinsert, ledger, -, h⟩ := h
        cases h
        obtain rfl := Store.advanceBranch_eq_ok hadvance
        obtain ⟨runs, -, rfl⟩ := Store.insertRun_eq_ok hinsert
        exact hd
    | delegate ctx key' request allowed ids =>
        obtain ⟨⟨child, t⟩, hdelegate, h⟩ := bind_eq_ok.mp h
        cases h
        unfold delegate at hdelegate
        obtain ⟨_, -, hbody⟩ := bind_eq_ok.mp hdelegate
        split at hbody
        · simp only [bind_eq_ok, require_eq_ok, exists_const, Except.ok.injEq,
            Prod.mk.injEq] at hbody
          exact hbody.2.2 ▸ hd
        · simp only [addChild, bind_eq_ok, require_eq_ok, exists_const, Except.ok.injEq,
            Prod.mk.injEq] at hbody
          obtain ⟨parent, -, root, -, -, -, _, ⟨ledger, -, t, hbranch, u, hinsert, v, hdependency,
            ledger', -, rfl⟩, -, rfl⟩ := hbody
          obtain ⟨branches, -, rfl, -⟩ := Store.addBranch_eq_ok hbranch
          obtain ⟨runs, -, rfl⟩ := Store.insertRun_eq_ok hinsert
          obtain ⟨dependencies, hdeps, rfl⟩ := Store.addDependency_eq_ok hdependency
          obtain ⟨unused, read⟩ := Table.insert?_eq_some hdeps
          refine (read key).trans ?_
          rw [if_neg, hd]
          rintro rfl
          cases unused.symm.trans hd
    | _ => cases creates
  · exact (perform_booked bills creates h).dependencies ▸ hd

/-! ## The transaction -/

/-- What a delegation reads and writes of the snapshot of a run. -/
structure ConfigSnapshot where
  capabilities : List String
  profileRef : String
deriving DecidableEq, Repr

/-- The tables that `delegate` writes.  The hook of a new run keeps its own in `bindings`. -/
structure DelegationTables (β : Type) where
  store : Store
  snapshots : Table SnapshotId ConfigSnapshot
  /-- `effective_profile_ref` of the record `run_model_controls`. -/
  controls : RunId → Option String
  bindings : β

variable {β : Type}

/-- The snapshot of a child. -/
def childSnapshot (parent : ConfigSnapshot) (control : Option String) (requested : List String) :
    ConfigSnapshot :=
  { capabilities := requested.mergeSort, profileRef := control.getD parent.profileRef }

/-- The body of `delegate`, in the order of its writes.  `hook` is `run_created_hook`. -/
def delegateTables (host : Host) (hook : RunId → ConfigSnapshot → β → Except HarnessError β)
    (t : DelegationTables β) (ctx : ExecutionContext) (key : OperationKey)
    (request : DelegateRequest) (allowed : List String) (ids : DelegateIds) (now : Time) :
    Except HarnessError (RunId × DelegationTables β) := do
  boundary t.store ctx now
  match t.store.dependencies.get? key with
  | some saved =>
      require (saved.argsHash = host.contentHash request.args)
        { code := .delegationConflict, message := "同一委派操作的参数发生变化" }
      .ok (saved.childId, t)
  | none =>
      let parent ← t.store.run ctx.runId
      let root ← t.store.run ctx.rootRunId
      require (root.cancelRequested = false ∧ parent.cancelRequested = false ∧
          parent.depth < host.maxDepth)
        { code := .delegationLimit, message := "委派已取消或超过深度限制" }
      let requested := request.capabilities.getD allowed
      require (∀ capability ∈ requested, capability ∈ allowed)
        { code := .childPermission, message := "子任务权限不能超过父任务", status := 403 }
      let ledger ← t.store.ledger.reserve ctx.rootRunId (.child key) (Items.single .children 1)
      let snapshot ← orThrow (t.snapshots.get? ctx.configSnapshotId)
        { code := .valueError, message := "'NoneType' object is not iterable" }
      let snapshot := childSnapshot snapshot (t.controls ctx.runId) requested
      let snapshots ← orThrow (t.snapshots.insert? ids.snapshot snapshot) Store.integrity
      let s ← Store.addBranch { t.store with ledger } ids.branch
        { sessionId := parent.sessionId, graphThreadKey := ids.thread }
      let child := childRow ctx parent request ids now
      let s ← s.insertRun ids.run child
      let bindings ← hook ids.run snapshot t.bindings
      let s ← s.addDependency key
        { parentId := ctx.runId, childId := ids.run, argsHash := host.contentHash request.args }
      let ledger ← s.ledger.settle (.child key) (some (Amount.single .children 1))
      let s := Store.event { s with ledger } ctx.runId .childCreated
        (.child ids.run request.goal .queued none) now
      let store := s.eventState ids.run child .runQueued none now
      .ok (ids.run, { t with store, snapshots, bindings })

/-- `Store.transaction`: what raises is rolled back. -/
def DelegationTables.transaction {α : Type} (t : DelegationTables β)
    (body : DelegationTables β → Except HarnessError (α × DelegationTables β)) :
    Except HarnessError α × DelegationTables β :=
  match body t with
  | .ok (a, t') => (.ok a, t')
  | .error e => (.error e, t)

/-- The scheduler's rows change as in the system. -/
theorem delegateTables_store {hook : RunId → ConfigSnapshot → β → Except HarnessError β}
    {tables tables' : DelegationTables β} {ctx : ExecutionContext} {key : OperationKey}
    {request : DelegateRequest} {allowed : List String} {ids : DelegateIds} {child : RunId}
    (h : delegateTables host hook tables ctx key request allowed ids now = .ok (child, tables')) :
    delegate host tables.store ctx key request allowed ids now = .ok (child, tables'.store) := by
  unfold delegateTables at h
  unfold delegate
  obtain ⟨_, hboundary, h⟩ := bind_eq_ok.mp h
  refine bind_eq_ok.mpr ⟨_, hboundary, ?_⟩
  cases hsaved : tables.store.dependencies.get? key with
  | some saved =>
      simp only [hsaved, bind_eq_ok, require_eq_ok, exists_const, Except.ok.injEq,
        Prod.mk.injEq] at h ⊢
      obtain ⟨same, rfl, rfl⟩ := h
      exact ⟨same, rfl, rfl⟩
  | none =>
      simp only [hsaved, addChild, bind_eq_ok, require_eq_ok, exists_const, Except.ok.injEq,
        Prod.mk.injEq] at h ⊢
      obtain ⟨parent, hparent, root, hroot, goes, permitted, ledger, hreserve, snapshot, -, snapshots,
        -, t, hbranch, u, hinsert, bindings, -, v, hdependency, ledger', hsettle, rfl, rfl⟩ := h
      exact ⟨parent, hparent, root, hroot, goes, permitted, _, ⟨ledger, hreserve, t, hbranch, u,
        hinsert, v, hdependency, ledger', hsettle, rfl⟩, rfl, rfl⟩

/-- A retry returns the child of the key, or is refused when its arguments differ. -/
theorem delegateTables_again {hook : RunId → ConfigSnapshot → β → Except HarnessError β}
    {tables : DelegationTables β} {ctx : ExecutionContext} {key : OperationKey}
    {request : DelegateRequest} {saved : Dependency}
    (recorded : tables.store.dependencies.get? key = some saved)
    (fenced : boundary tables.store ctx now = .ok ()) (allowed : List String) (ids : DelegateIds) :
    delegateTables host hook tables ctx key request allowed ids now =
      if saved.argsHash = host.contentHash request.args then .ok (saved.childId, tables)
      else .error { code := .delegationConflict, message := "同一委派操作的参数发生变化" } := by
  unfold delegateTables
  simp only [fenced, recorded, ok_bind]
  split
  · rename_i same
    rw [require_pos _ same]
    rfl
  · rename_i other
    rw [require_neg _ other]
    rfl

/-- What a delegation that succeeds leaves under its key. -/
theorem delegateTables_recorded {hook : RunId → ConfigSnapshot → β → Except HarnessError β}
    {tables tables' : DelegationTables β} {ctx : ExecutionContext} {key : OperationKey}
    {request : DelegateRequest} {allowed : List String} {ids : DelegateIds} {child : RunId}
    (h : delegateTables host hook tables ctx key request allowed ids now = .ok (child, tables')) :
    ∃ d, tables'.store.dependencies.get? key = some d ∧ d.childId = child ∧
      d.argsHash = host.contentHash request.args := by
  unfold delegateTables at h
  obtain ⟨_, -, h⟩ := bind_eq_ok.mp h
  split at h
  · rename_i saved hsaved
    simp only [bind_eq_ok, require_eq_ok, exists_const, Except.ok.injEq, Prod.mk.injEq] at h
    obtain ⟨same, rfl, rfl⟩ := h
    exact ⟨saved, hsaved, rfl, same⟩
  · simp only [bind_eq_ok, require_eq_ok, exists_const, Except.ok.injEq, Prod.mk.injEq] at h
    obtain ⟨parent, -, root, -, -, -, ledger, -, snapshot, -, snapshots, -, t, -, u, -, bindings, -, v,
      hdependency, ledger', -, rfl, rfl⟩ := h
    obtain ⟨dependencies, hdeps, rfl⟩ := Store.addDependency_eq_ok hdependency
    obtain ⟨-, read⟩ := Table.insert?_eq_some hdeps
    exact ⟨_, (read key).trans (if_pos rfl), rfl, rfl⟩

/-- What raises changes no table. -/
theorem DelegationTables.transaction_error {α : Type} {tables : DelegationTables β}
    {body : DelegationTables β → Except HarnessError (α × DelegationTables β)} {e : HarnessError}
    (h : (tables.transaction body).1 = .error e) : (tables.transaction body).2 = tables := by
  unfold transaction at h ⊢
  cases hbody : body tables with
  | error e' => rfl
  | ok result =>
      rw [hbody] at h
      cases h

/-- In every run, with retries and crashes anywhere: a key has one child for good, and every
delegated run is the child of one key; no run is deeper than the configuration allows; the
delegated runs of a tree are as many as the units of children that its account has consumed, within
the limit of the account; a delegation is found again by its key, and refused when its arguments
differ; and what raises changes no table. -/
theorem delegated_once {w : World} (h : (delegationSystem host).Reachable w) :
    (∀ key d, w.store.dependencies.get? key = some d →
      (∃ r, w.store.runs.get? d.childId = some r ∧ r.parentRunId = some d.parentId) ∧
      ∀ w', (delegationSystem host).Path w w' → w'.store.dependencies.get? key = some d) ∧
    (∀ rid r, w.store.runs.get? rid = some r → r.parentRunId.isSome →
      (∃! key, ∃ d, w.store.dependencies.get? key = some d ∧ d.childId = rid) ∧
      ∃ a, w.store.ledger.accounts.get? r.rootRunId = some a) ∧
    (∀ rid r, w.store.runs.get? rid = some r → r.depth ≤ host.maxDepth) ∧
    (∀ root a, w.store.ledger.accounts.get? root = some a →
      a.consumed .children = w.store.delegatedUnder root ∧
      ∀ limit ∈ a.limits.lookup .children,
        w.store.delegatedUnder root = 0 ∨ (w.store.delegatedUnder root : Rat) ≤ limit) ∧
    ∀ (β : Type) (hook : RunId → ConfigSnapshot → β → Except HarnessError β)
      (tables : DelegationTables β) ctx key request allowed ids, tables.store = w.store →
      (∀ d, w.store.dependencies.get? key = some d → boundary w.store ctx w.now = .ok () →
        delegateTables host hook tables ctx key request allowed ids w.now =
          if d.argsHash = host.contentHash request.args then .ok (d.childId, tables)
          else .error { code := .delegationConflict, message := "同一委派操作的参数发生变化" }) ∧
      (∀ child tables', delegateTables host hook tables ctx key request allowed ids w.now =
        .ok (child, tables') →
        delegate host w.store ctx key request allowed ids w.now = .ok (child, tables'.store) ∧
        ∃ d, tables'.store.dependencies.get? key = some d ∧ d.childId = child ∧
          d.argsHash = host.contentHash request.args) ∧
      ∀ e, (tables.transaction fun t =>
          delegateTables host hook t ctx key request allowed ids w.now).1 = .error e →
        (tables.transaction fun t =>
          delegateTables host hook t ctx key request allowed ids w.now).2 = tables := by
  have delegations := reachable_delegations h
  refine ⟨fun key d hd => ⟨delegations.child key d hd, fun w' path => ?_⟩,
    fun rid r hr delegated => ⟨?_, delegations.accounted rid r hr delegated⟩, delegations.depth,
    fun root a ha => ?_, fun β hook tables ctx key request allowed ids same => ⟨?_, ?_, ?_⟩⟩
  · refine path.stable (P := fun w => w.store.dependencies.get? key = some d)
      (fun w a w' _ kept step => ?_) h hd
    obtain ⟨bills, step⟩ := step
    rcases World.next_perform step with ⟨later, rfl, -, rfl⟩ | ⟨-, store, hperform, rfl⟩
    · exact kept
    · exact dependency_kept kept bills hperform
  · obtain ⟨key, d, hd, child⟩ := delegations.keyed rid r hr delegated
    refine ⟨key, ⟨d, hd, child⟩, ?_⟩
    rintro key' ⟨d', hd', child'⟩
    exact delegations.once key' key d' d hd' hd (child'.trans child.symm)
  · obtain ⟨consumed, -, within⟩ := delegations.counted root a ha
    exact ⟨consumed, within⟩
  · intro d hd fenced
    exact delegateTables_again (same ▸ hd) (same ▸ fenced) allowed ids
  · intro child tables' hdelegate
    exact ⟨same ▸ delegateTables_store hdelegate, delegateTables_recorded hdelegate⟩
  · exact fun e => DelegationTables.transaction_error

namespace Sample

/-- Run `10` may delegate once, and does. -/
def delegation : List Action :=
  [.addBranch 1 { sessionId := 1, graphThreadKey := 5 },
    .submit 1 1 ⟨1, 1, 1, 1, "goal", Amount.single .children 1, 1000000⟩ 10,
    .claim ⟨7, 100⟩ 1,
    .delegate (context 1 1) ⟨10, 1, 1⟩ ⟨"args", "part", "done", none⟩ [] ⟨11, 2, 6, 2⟩]

end Sample

/-- A run delegates the one child its budget allows. -/
theorem delegated_once_child : ∃ w : World, (delegationSystem Sample.host).Reachable w ∧
    w.store.delegatedUnder 10 = 1 ∧
    ∀ rid r, w.store.runs.get? rid = some r → r.depth ≤ Sample.host.maxDepth := by
  have counted : (System.runs (World.next Sample.host) Sample.start Sample.delegation).map
      (fun w => w.store.delegatedUnder 10) = some 1 := by decide +kernel
  obtain ⟨w, run, count⟩ := Option.map_eq_some_iff.mp counted
  have reachable : (delegationSystem Sample.host).Reachable w := by
    refine Sample.reachableWithin (fun a ha _ => ?_) run
    simp only [Sample.delegation, List.mem_cons, List.not_mem_nil, or_false] at ha
    rcases ha with rfl | rfl | rfl | rfl <;> trivial
  obtain ⟨-, -, depth, -⟩ := delegated_once reachable
  exact ⟨w, reachable, count, depth⟩

end MiHarness

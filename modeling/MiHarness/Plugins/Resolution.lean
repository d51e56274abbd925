import MiHarness.Plugins.Registry

/-!
# What requirements are resolved against

A requirement is resolved against the highest version of the pool that it admits, the first by key among
equals.  Which one that is depends on what the pool has, not on its order.  `Needs` is the relation that
a recovery must not have cycles in; one lemma says what a version that joins the pool does to it, and
one what versions that leave it do.
-/

namespace MiHarness

open Library Relation

namespace PluginRegistry

variable {V : Type} [LinearOrder V] {E : Type} {h : PluginHost V} {port : ExtensionPort E}
  {records records' : Table PluginKey PluginRecord} {p : PluginStatus → Bool}
  {m : PluginManifest} {pool pool' : PluginManifest → Prop}

/-! ## Lists of records -/

/-- Every record is of the version of its key. -/
def Keyed (records : Table PluginKey PluginRecord) : Prop :=
  ∀ k r, records.get? k = some r → r.manifest.key = k

theorem mem_manifests : m ∈ manifests records p ↔
    ∃ k r, records.get? k = some r ∧ p r.status = true ∧ r.manifest = m := by
  simp only [manifests, list, List.mem_map, List.mem_filter]
  constructor
  · rintro ⟨r, ⟨⟨⟨k, _⟩, hmem, rfl⟩, passes⟩, rfl⟩
    exact ⟨k, _, Table.mem_rows.mp ((List.mem_insertionSort _).mp hmem), passes, rfl⟩
  · rintro ⟨k, r, row, passes, rfl⟩
    exact ⟨r, ⟨⟨(k, r), (List.mem_insertionSort _).mpr (Table.mem_rows.mpr row), rfl⟩, passes⟩, rfl⟩

/-- The manifests of records come in the order of their keys. -/
theorem pairwise_manifests (keyed : Keyed records) (p : PluginStatus → Bool) :
    (manifests records p).Pairwise fun a b => a.key < b.key := by
  have sorted : (records.rows.insertionSort fun a b => a.1 ≤ b.1).Pairwise fun a b => a.1 < b.1 := by
    have weak := List.pairwise_insertionSort (fun a b : PluginKey × PluginRecord => a.1 ≤ b.1)
      records.rows
    have distinct : ((records.rows.insertionSort fun a b => a.1 ≤ b.1).map Prod.fst).Nodup :=
      ((List.perm_insertionSort _ _).map Prod.fst).nodup_iff.mpr records.nodup
    rw [List.Nodup, List.pairwise_map] at distinct
    exact (weak.and distinct).imp fun h => lt_of_le_of_ne h.1 h.2
  rw [manifests, List.pairwise_map]
  refine List.Pairwise.filter _ ?_
  rw [list, List.pairwise_map]
  refine sorted.imp_of_mem fun {a b} ha hb below => ?_
  have read : ∀ e ∈ records.rows.insertionSort (fun a b => a.1 ≤ b.1), e.2.manifest.key = e.1 :=
    fun e he => keyed e.1 e.2 (Table.mem_rows.mp ((List.mem_insertionSort _).mp he))
  rw [read a ha, read b hb]
  exact below

/-! ## Resolution -/

/-- The requirement is resolved against the version, the highest of the pool that it admits. -/
def Serves (h : PluginHost V) (pool : PluginManifest → Prop) (r : PluginId × String)
    (b : PluginManifest) : Prop :=
  ∃ requirement, h.specifier r.2 = some requirement ∧ pool b ∧ admits h requirement r.1 b = true ∧
    ∀ a, pool a → admits h requirement r.1 a = true → h.version a.version < h.version b.version ∨
      a = b ∨ (h.version a.version = h.version b.version ∧ b.key < a.key)

/-- A requirement of the one is resolved against the other. -/
def Needs (h : PluginHost V) (pool : PluginManifest → Prop) (a b : PluginManifest) : Prop :=
  ∃ r ∈ a.requires, Serves h pool r b

theorem Serves.unique {r : PluginId × String} {b b' : PluginManifest} (hb : Serves h pool r b)
    (hb' : Serves h pool r b') : b = b' := by
  obtain ⟨requirement, parsed, inside, admitted, best⟩ := hb
  obtain ⟨requirement', parsed', inside', admitted', best'⟩ := hb'
  cases parsed.symm.trans parsed'
  rcases best b' inside' admitted' with lower | same | ⟨equal, first⟩
  · rcases best' b inside admitted with lower' | same | ⟨equal, -⟩
    · exact absurd lower' lower.asymm
    · exact same
    · exact absurd equal lower.ne'
  · exact same.symm
  · rcases best' b inside admitted with lower' | same | ⟨-, first'⟩
    · exact absurd equal lower'.ne'
    · exact same
    · exact absurd first' first.asymm

/-- What serves from a larger pool serves from a smaller one that has it. -/
theorem Serves.mono {r : PluginId × String} {b : PluginManifest} (hb : Serves h pool' r b)
    (smaller : ∀ a, pool a → pool' a) (inside : pool b) : Serves h pool r b := by
  obtain ⟨requirement, parsed, -, admitted, best⟩ := hb
  exact ⟨requirement, parsed, inside, admitted, fun a ha => best a (smaller a ha)⟩

variable {pending installed : List PluginManifest}

/-- From a list that is ordered by keys, `choose` takes what serves. -/
theorem choose_eq_some (sorted : pending.Pairwise fun a b => a.key < b.key) {r : PluginId × String}
    {b : PluginManifest} :
    choose h installed pending r = .ok (some b) ↔ Serves h (· ∈ pending) r b := by
  have best : ∀ requirement : V → Bool,
      b ∈ (pending.filter fun m => admits h requirement r.1 m).argmax (fun m => h.version m.version) ↔
        (b ∈ pending ∧ admits h requirement r.1 b = true) ∧
        ∀ a, a ∈ pending ∧ admits h requirement r.1 a = true →
          h.version a.version < h.version b.version ∨ a = b ∨
            (h.version a.version = h.version b.version ∧ b.key < a.key) := by
    intro requirement
    rw [mem_argmax_of_pairwise (List.Pairwise.filter _ sorted) fun _ _ below => below.asymm]
    simp only [List.mem_filter]
  simp only [choose, bind_eq_ok, orThrow_eq_ok]
  constructor
  · rintro ⟨requirement, parsed, chosen⟩
    split at chosen
    · simp only [bind_eq_ok, orThrow_eq_ok, Except.ok.injEq, Option.some.injEq] at chosen
      obtain ⟨_, found, rfl⟩ := chosen
      obtain ⟨⟨inside, admitted⟩, highest⟩ := (best requirement).mp found
      exact ⟨requirement, parsed, inside, admitted, fun a ha ha' => highest a ⟨ha, ha'⟩⟩
    · simp only [bind_eq_ok, Except.ok.injEq, reduceCtorEq, and_false, exists_false] at chosen
  · rintro ⟨requirement, parsed, inside, admitted, highest⟩
    refine ⟨requirement, parsed, ?_⟩
    have named : b.id = r.1 := by
      rw [admits, Bool.and_eq_true] at admitted
      exact of_decide_eq_true admitted.1
    have known : pending.any (fun m => m.id = r.1) = true :=
      List.any_eq_true.mpr ⟨b, inside, decide_eq_true named⟩
    rw [if_pos known, (best requirement).mpr
      ⟨⟨inside, admitted⟩, fun a ha => highest a ha.1 ha.2⟩]
    rfl

/-- Of a list that has a version a requirement admits, some version serves. -/
theorem exists_serves (sorted : pending.Pairwise fun a b => a.key < b.key) {r : PluginId × String}
    {requirement : V → Bool} (parsed : h.specifier r.2 = some requirement) {a : PluginManifest}
    (inside : a ∈ pending) (admitted : admits h requirement r.1 a = true) :
    ∃ b, Serves h (· ∈ pending) r b := by
  cases best : (pending.filter fun m => admits h requirement r.1 m).argmax
      (fun m => h.version m.version) with
  | none =>
      have none := List.argmax_eq_none.mp best
      exact absurd (List.mem_filter.mpr ⟨inside, admitted⟩) (by rw [none]; exact List.not_mem_nil)
  | some b =>
      have named : a.id = r.1 := by
        rw [admits, Bool.and_eq_true] at admitted
        exact of_decide_eq_true admitted.1
      have known : pending.any (fun m => m.id = r.1) = true :=
        List.any_eq_true.mpr ⟨a, inside, decide_eq_true named⟩
      have chosen : choose h [] pending r = .ok (some b) := by
        rw [choose, parsed]
        simp only [orThrow, ok_bind]
        rw [if_pos known, best]
        rfl
      exact ⟨b, (choose_eq_some sorted).mp chosen⟩

/-- The requirements of a version are met by installed versions of other plugins. -/
def Met (h : PluginHost V) (installed : PluginManifest → Prop) (m : PluginManifest) : Prop :=
  ∀ r ∈ m.requires, r.1 ≠ m.id ∧ ∃ requirement, h.specifier r.2 = some requirement ∧
    ∃ a, installed a ∧ admits h requirement r.1 a = true

/-- A pool whose requirements are met from within and that has no cycle is ordered. -/
theorem resolveDependencies_ok (sorted : pending.Pairwise fun a b => a.key < b.key)
    (within : ∀ a ∈ installed, a ∈ pending) (met : ∀ m ∈ pending, Met h (· ∈ installed) m)
    (acyclic : ∀ a, ¬TransGen (Needs h (· ∈ pending)) a a) :
    ∃ order, resolveDependencies h installed pending = .ok order ∧ order.Nodup ∧
      order.Perm pending ∧ ∀ before a after, order = before ++ a :: after →
        ∀ b, Needs h (· ∈ pending) a b → b ∈ before := by
  have needs : ∀ a b, (dependencies h installed pending).Needs a b ↔ Needs h (· ∈ pending) a b :=
    fun a b => exists_congr fun r => and_congr_right fun _ => choose_eq_some sorted
  have resolvable : (dependencies h installed pending).Resolvable pending := by
    refine ⟨?_, fun a ha r hr => ?_, fun a _ cycle => acyclic a ?_⟩
    · show (pending.map PluginManifest.key).Nodup
      rw [List.Nodup, List.pairwise_map]
      exact sorted.imp fun below => below.ne
    · obtain ⟨-, requirement, parsed, b, ready, admitted⟩ := met a ha r hr
      obtain ⟨c, serves⟩ := exists_serves sorted parsed (within b ready) admitted
      refine ⟨some c, (choose_eq_some sorted).mpr serves, fun c' hc' => ?_⟩
      cases hc'
      exact serves.choose_spec.2.1
    · exact TransGen.mono (fun a b => (needs a b).mp) a a cycle
  obtain ⟨order, run, ordered, perm⟩ := Dependencies.order_ok resolvable
  exact ⟨order, run, ordered.nodup, perm, fun before a after split b hb =>
    ordered.needed before a after split b ((needs a b).mpr hb)⟩

/-- A version alone is resolved when installed versions of other plugins meet its requirements. -/
theorem resolveDependencies_single {order : List PluginManifest} :
    resolveDependencies h installed [m] = .ok order ↔ order = [m] ∧ Met h (· ∈ installed) m := by
  have one : ∀ r : PluginId × String, ∀ order order' : List PluginManifest,
      (do let chosen ← choose h installed [m] r
          chosen.elim (.ok order) ((dependencies h installed [m]).visit 1 [m.key] order) :
            Except HarnessError (List PluginManifest)) = .ok order' ↔
        order' = order ∧ r.1 ≠ m.id ∧ ∃ requirement, h.specifier r.2 = some requirement ∧
          ∃ a ∈ installed, admits h requirement r.1 a = true := by
    intro r order order'
    by_cases own : m.id = r.1
    · -- a requirement on itself is a conflict or a cycle
      refine iff_of_false (fun run => ?_) fun met => met.2.1 own.symm
      obtain ⟨chosen, found, run⟩ := bind_eq_ok.mp run
      cases chosen with
      | none =>
          simp only [choose, bind_eq_ok, orThrow_eq_ok] at found
          obtain ⟨requirement, -, found⟩ := found
          rw [if_pos (by simp [own])] at found
          simp only [bind_eq_ok, Except.ok.injEq, reduceCtorEq, and_false, exists_false] at found
      | some next =>
          have itself := ((choose_eq_some (List.pairwise_singleton _ m)).mp found).choose_spec.2.1
          cases List.mem_singleton.mp itself
          have raised : (dependencies h installed [m]).visit 1 [m.key] order m =
              .error (valueError "plugin dependency cycle") :=
            if_pos (List.mem_singleton_self _)
          cases raised.symm.trans run
    · have other : [m].any (fun m => m.id = r.1) = false := by simp [own]
      rw [choose, other]
      constructor
      · intro run
        obtain ⟨chosen, found, run⟩ := bind_eq_ok.mp run
        simp only [bind_eq_ok, orThrow_eq_ok] at found
        obtain ⟨requirement, parsed, found⟩ := found
        rw [if_neg Bool.false_ne_true] at found
        simp only [bind_eq_ok, require_eq_ok, exists_const, Except.ok.injEq] at found
        obtain ⟨met, rfl⟩ := found
        cases run
        obtain ⟨a, ha, admitted⟩ := List.any_eq_true.mp met
        exact ⟨rfl, Ne.symm own, requirement, parsed, a, ha, admitted⟩
      · rintro ⟨rfl, -, requirement, parsed, a, ha, admitted⟩
        rw [parsed]
        simp only [orThrow, ok_bind]
        rw [if_neg Bool.false_ne_true, require_pos _ (List.any_eq_true.mpr ⟨a, ha, admitted⟩)]
        rfl
  have loop : ∀ (rs : List (PluginId × String)) (order order' : List PluginManifest),
      rs.foldlM (fun order r => do
          let chosen ← choose h installed [m] r
          chosen.elim (.ok order) ((dependencies h installed [m]).visit 1 [m.key] order)) order =
          (.ok order' : Except HarnessError _) ↔
        order' = order ∧ ∀ r ∈ rs, r.1 ≠ m.id ∧ ∃ requirement, h.specifier r.2 = some requirement ∧
          ∃ a ∈ installed, admits h requirement r.1 a = true := by
    intro rs
    induction rs with
    | nil =>
        intro order order'
        rw [List.foldlM_nil, pure_eq_ok]
        exact ⟨fun same => ⟨same.symm, fun _ hr => absurd hr List.not_mem_nil⟩, fun met => met.1.symm⟩
    | cons r rs ih =>
        intro order order'
        rw [List.foldlM_cons, bind_eq_ok]
        simp only [one, ih, List.forall_mem_cons]
        constructor
        · rintro ⟨_, ⟨rfl, met⟩, rfl, rest⟩
          exact ⟨rfl, met, rest⟩
        · rintro ⟨rfl, met, rest⟩
          exact ⟨_, ⟨rfl, met⟩, rfl, rest⟩
  have visit : (dependencies h installed [m]).visit 2 [] [] m = (do
      let order ← m.requires.foldlM (fun order r => do
        let chosen ← choose h installed [m] r
        chosen.elim (.ok order) ((dependencies h installed [m]).visit 1 [m.key] order)) []
      .ok (order ++ [m])) := by
    rw [Dependencies.visit, if_neg List.not_mem_nil, List.map_nil, if_neg List.not_mem_nil]
    rfl
  rw [resolveDependencies, Dependencies.order, List.foldlM_cons]
  show ((dependencies h installed [m]).visit 2 [] [] m >>= fun order => pure order) = _ ↔ _
  rw [bind_pure, visit, bind_eq_ok]
  constructor
  · rintro ⟨order, run, same⟩
    obtain ⟨rfl, met⟩ := (loop _ _ _).mp run
    cases same
    exact ⟨rfl, met⟩
  · rintro ⟨rfl, met⟩
    exact ⟨[], (loop _ _ _).mpr ⟨rfl, met⟩, rfl⟩

/-! ## Pools that change -/

/-- A version that joins the pool makes a cycle only through itself. -/
theorem acyclic_join (acyclic : ∀ a, ¬TransGen (Needs h pool) a a)
    (joins : ∀ a, pool' a ↔ a = m ∨ pool a) (apart : ¬TransGen (Needs h pool') m m) :
    ∀ a, ¬TransGen (Needs h pool') a a := by
  intro a cycle
  have old : ∀ a b, Needs h pool' a b → Needs h pool a b ∨ a = m ∨ b = m := by
    rintro a b ⟨r, hr, serves⟩
    rcases (joins b).mp serves.choose_spec.2.1 with same | inside
    · exact .inr (.inr same)
    · exact .inl ⟨r, hr, serves.mono (fun c hc => (joins c).mpr (.inr hc)) inside⟩
  rcases cycle_or old cycle with before | ⟨_, rfl, through⟩
  · exact acyclic a before
  · exact apart through

/-- Versions that leave the pool make a cycle only through one that was resolved against them. -/
theorem acyclic_leave (leaves : PluginManifest → Prop) (finite : ∃ l : List PluginManifest,
      l.Pairwise (fun a b => a.key < b.key) ∧ ∀ a, a ∈ l ↔ pool a)
    (acyclic : ∀ a, ¬TransGen (Needs h pool) a a) (stays : ∀ a, pool' a ↔ pool a ∧ ¬leaves a)
    (apart : ∀ a d, leaves d → Needs h pool a d → ¬TransGen (Needs h pool') a a) :
    ∀ a, ¬TransGen (Needs h pool') a a := by
  obtain ⟨l, sorted, members⟩ := finite
  have same : (· ∈ l) = pool := funext fun a => propext (members a)
  intro a cycle
  have old : ∀ a b, Needs h pool' a b → Needs h pool a b ∨
      (∃ d, leaves d ∧ Needs h pool a d) ∨ ∃ d, leaves d ∧ Needs h pool b d := by
    rintro a b ⟨r, hr, serves⟩
    obtain ⟨requirement, parsed, inside, admitted, -⟩ := id serves
    -- what served before has left, or serves still
    obtain ⟨c, before⟩ := exists_serves (h := h) sorted parsed ((members b).mpr ((stays b).mp inside).1)
      admitted
    rw [same] at before
    by_cases gone : leaves c
    · exact .inr (.inl ⟨c, gone, r, hr, before⟩)
    · have still := before.mono (fun a ha => ((stays a).mp ha).1)
        ((stays c).mpr ⟨before.choose_spec.2.1, gone⟩)
      obtain rfl := still.unique serves
      exact .inl ⟨r, hr, before⟩
  rcases cycle_or old cycle with before | ⟨y, ⟨d, gone, needs⟩, through⟩
  · exact acyclic a before
  · exact apart y d gone needs through

end PluginRegistry

end MiHarness

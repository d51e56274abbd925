import Mathlib.Data.List.MinMax
import Mathlib.Data.List.Nodup
import Mathlib.Data.List.Perm.Subperm
import Mathlib.Logic.Relation
import MiHarness.Library.Checked

/-!
# Depth-first order of dependencies

Nodes have keys and requirements, and a requirement is resolved against a node, against something
outside, or not at all.  `visit` goes through the requirements of a node before it adds the node to the
order, and raises for a node that is being visited.  `order_ok` says when visiting a pool of nodes
orders all of them: when every requirement is resolved, within the pool or outside, and no node needs
itself through others.

Two facts help to keep this while the pool changes: a cycle that is new goes through what is new
(`cycle_or`), and the first greatest element of a list is known by its place (`mem_argmax_of_pairwise`).
-/

namespace Library

open Relation

/-! ## Cycles -/

section Cycles

variable {α : Type*} {R R' : α → α → Prop} {new : α → Prop}

/-- A path of the new relation is one of the old, or meets what is new. -/
theorem path_or (h : ∀ a b, R' a b → R a b ∨ new a ∨ new b) {a b : α} (path : TransGen R' a b) :
    TransGen R a b ∨ ∃ y, new y ∧ ReflTransGen R' a y ∧ ReflTransGen R' y b := by
  induction path with
  | single step =>
      rcases h _ _ step with old | here | there
      · exact .inl (.single old)
      · exact .inr ⟨_, here, .refl, .single step⟩
      · exact .inr ⟨_, there, .single step, .refl⟩
  | tail path step ih =>
      rcases ih with old | ⟨y, fresh, before, after⟩
      · rcases h _ _ step with same | here | there
        · exact .inl (old.tail same)
        · exact .inr ⟨_, here, path.to_reflTransGen, .single step⟩
        · exact .inr ⟨_, there, (path.tail step).to_reflTransGen, .refl⟩
      · exact .inr ⟨y, fresh, before, after.tail step⟩

/-- A cycle of the new relation is one of the old, or goes through what is new. -/
theorem cycle_or (h : ∀ a b, R' a b → R a b ∨ new a ∨ new b) {x : α} (cycle : TransGen R' x x) :
    TransGen R x x ∨ ∃ y, new y ∧ TransGen R' y y := by
  rcases path_or h cycle with old | ⟨y, fresh, before, after⟩
  · exact .inl old
  · exact .inr ⟨y, fresh, (TransGen.trans_right after cycle).trans_left before⟩

end Cycles

/-! ## The first greatest element -/

section Greatest

variable {α β : Type*} [LinearOrder β] {f : α → β} {before : α → α → Prop}

/-- In a list without repetitions whose elements stand in an order, the first greatest element is
above all others, or stands before those that are as great. -/
theorem mem_argmax_of_pairwise {l : List α} (sorted : l.Pairwise before)
    (asymm : ∀ a b, before a b → ¬before b a) {m : α} :
    m ∈ l.argmax f ↔ m ∈ l ∧ ∀ a ∈ l, f a < f m ∨ a = m ∨ (f a = f m ∧ before m a) := by
  induction l generalizing m with
  | nil => simp
  | cons head tail ih =>
      obtain ⟨first, rest⟩ := List.pairwise_cons.mp sorted
      rw [List.argmax_cons]
      cases best : tail.argmax f with
      | none =>
          obtain rfl := List.argmax_eq_none.mp best
          simp only [Option.mem_def, Option.some.injEq, List.mem_singleton, forall_eq]
          constructor
          · rintro rfl
            exact ⟨rfl, .inr (.inl rfl)⟩
          · exact fun h => h.1.symm
      | some c =>
          obtain ⟨inside, greatest⟩ := (ih rest).mp best
          dsimp only
          split
          · rename_i below
            simp only [Option.mem_def, Option.some.injEq]
            constructor
            · rintro rfl
              refine ⟨List.mem_cons_of_mem _ inside, fun a ha => ?_⟩
              rcases List.mem_cons.mp ha with rfl | ha
              · exact .inl below
              · exact greatest a ha
            · rintro ⟨hm, above⟩
              rcases List.mem_cons.mp hm with rfl | hm
              · rcases above c (List.mem_cons_of_mem _ inside) with lt | same | ⟨same, -⟩
                · exact absurd lt (not_lt.mpr below.le)
                · exact same
                · exact absurd same below.ne'
              · have largest := (ih rest).mpr
                  ⟨hm, fun a ha => above a (List.mem_cons_of_mem _ ha)⟩
                exact Option.some.inj (best.symm.trans largest)
          · rename_i above
            simp only [Option.mem_def, Option.some.injEq]
            constructor
            · rintro rfl
              refine ⟨List.mem_cons_self .., fun a ha => ?_⟩
              rcases List.mem_cons.mp ha with rfl | ha
              · exact .inr (.inl rfl)
              · have below : f a ≤ f c := by
                  rcases greatest a ha with lt | rfl | ⟨same, -⟩
                  · exact lt.le
                  · exact le_rfl
                  · exact same.le
                rcases (below.trans (not_lt.mp above)).lt_or_eq with lt | same
                · exact .inl lt
                · exact .inr (.inr ⟨same, first a ha⟩)
            · rintro ⟨hm, largest⟩
              rcases List.mem_cons.mp hm with rfl | hm
              · rfl
              · -- the head is no smaller and stands before
                rcases largest head (List.mem_cons_self ..) with lt | same | ⟨-, later⟩
                · have le : f m ≤ f c := by
                    rcases greatest m hm with lt | rfl | ⟨same, -⟩
                    · exact lt.le
                    · exact le_rfl
                    · exact same.le
                  exact absurd (lt.trans_le le) above
                · exact same
                · exact absurd (first m hm) (asymm _ _ later)

end Greatest

/-! ## Visiting -/

/-- Nodes and how their requirements are resolved: against a node that is visited, against something
that needs no visit, or with an error. -/
structure Dependencies (ν κ ρ ε : Type) where
  key : ν → κ
  requires : ν → List ρ
  choose : ρ → Except ε (Option ν)
  /-- Raised for a node that is being visited. -/
  cycle : ε
  /-- Raised when the fuel is exhausted. -/
  exhausted : ε

namespace Dependencies

variable {ν κ ρ ε : Type} (D : Dependencies ν κ ρ ε)

section

variable [DecidableEq κ]

/-- Visit a node, given the keys of the nodes that are being visited and the order so far. -/
def visit : Nat → List κ → List ν → ν → Except ε (List ν)
  | 0, _, _, _ => .error D.exhausted
  | fuel + 1, visiting, order, node =>
      if D.key node ∈ visiting then .error D.cycle
      else if D.key node ∈ order.map D.key then .ok order
      else do
        let order ← (D.requires node).foldlM (fun order r => do
          let chosen ← D.choose r
          chosen.elim (.ok order) (visit fuel (D.key node :: visiting) order)) order
        .ok (order ++ [node])

/-- Visit the nodes of a pool, one after the other.  A visit goes down at most once for each key. -/
def order (pool : List ν) : Except ε (List ν) :=
  pool.foldlM (D.visit (pool.length + 1) []) []

end

/-- A requirement of the one is resolved against the other. -/
def Needs (a b : ν) : Prop := ∃ r ∈ D.requires a, D.choose r = .ok (some b)

/-- Nodes of the pool, each once and after what it needs. -/
structure Ordered (pool order : List ν) : Prop where
  inside : ∀ a ∈ order, a ∈ pool
  nodup : order.Nodup
  needed : ∀ before a after, order = before ++ a :: after → ∀ b, D.Needs a b → b ∈ before

/-- The requirements of the pool can be resolved. -/
structure Resolvable (pool : List ν) : Prop where
  keys : (pool.map D.key).Nodup
  resolved : ∀ a ∈ pool, ∀ r ∈ D.requires a, ∃ o, D.choose r = .ok o ∧ ∀ b ∈ o, b ∈ pool
  acyclic : ∀ a ∈ pool, ¬TransGen D.Needs a a

variable {D} {pool order : List ν}

theorem Ordered.nil : D.Ordered pool [] where
  inside _ h := absurd h List.not_mem_nil
  nodup := List.nodup_nil
  needed before a after h := by simp at h

theorem Ordered.snoc (h : D.Ordered pool order) {node : ν} (inside : node ∈ pool)
    (fresh : node ∉ order) (needed : ∀ b, D.Needs node b → b ∈ order) :
    D.Ordered pool (order ++ [node]) where
  inside a ha := by
    rcases List.mem_append.mp ha with ha | ha
    · exact h.inside a ha
    · exact List.mem_singleton.mp ha ▸ inside
  nodup := by
    rw [List.nodup_append]
    refine ⟨h.nodup, List.nodup_singleton _, fun a ha b hb same => ?_⟩
    exact fresh (List.mem_singleton.mp hb ▸ same ▸ ha)
  needed before a after split b hb := by
    rcases List.eq_nil_or_concat after with rfl | ⟨rest, last, rfl⟩
    · obtain ⟨rfl, same⟩ := List.append_inj' split rfl
      cases same
      exact needed b hb
    · have split' : order ++ [node] = (before ++ a :: rest) ++ [last] := by
        simpa using split
      obtain ⟨same, -⟩ := List.append_inj' split' rfl
      exact h.needed before a rest same b hb

theorem Resolvable.key_inj (h : D.Resolvable pool) {a b : ν} (ha : a ∈ pool) (hb : b ∈ pool)
    (same : D.key a = D.key b) : a = b :=
  List.inj_on_of_nodup_map h.keys ha hb same

variable [DecidableEq κ]

/-- A visit succeeds and orders the node after what it needs, while the nodes that are being visited
all need it. -/
theorem visit_ok (h : D.Resolvable pool) (fuel : Nat) :
    ∀ (visiting : List κ) (order : List ν) (node : ν), node ∈ pool → D.Ordered pool order →
      (∀ k ∈ visiting, ∃ t ∈ pool, D.key t = k ∧ TransGen D.Needs t node) → visiting.Nodup →
      (∀ k ∈ visiting, k ∉ order.map D.key) → pool.length < fuel + visiting.length →
      ∃ order', D.visit fuel visiting order node = .ok order' ∧ D.Ordered pool order' ∧
        order ⊆ order' ∧ node ∈ order' ∧ ∀ k ∈ visiting, k ∉ order'.map D.key := by
  induction fuel with
  | zero =>
      intro visiting order node _ _ above distinct _ enough
      -- more nodes would be visited than there are
      have inside : visiting ⊆ pool.map D.key := by
        intro k hk
        obtain ⟨t, ht, rfl, -⟩ := above k hk
        exact List.mem_map_of_mem ht
      have bound := (distinct.subperm inside).length_le
      rw [List.length_map] at bound
      omega
  | succ fuel ih =>
      intro visiting order node inside ordered above distinct apart enough
      have fresh : D.key node ∉ visiting := by
        intro visited
        obtain ⟨t, ht, same, needs⟩ := above _ visited
        obtain rfl := h.key_inj ht inside same
        exact h.acyclic t ht needs
      rw [visit, if_neg fresh]
      split
      · rename_i known
        obtain ⟨a, ha, same⟩ := List.mem_map.mp known
        obtain rfl := h.key_inj (ordered.inside a ha) inside same
        exact ⟨order, rfl, ordered, List.Subset.refl _, ha, apart⟩
      · rename_i unknown
        have loop : ∀ rs : List ρ, (∀ r ∈ rs, r ∈ D.requires node) → ∀ order : List ν,
            D.Ordered pool order → (∀ k ∈ D.key node :: visiting, k ∉ order.map D.key) →
            ∃ order', rs.foldlM (fun order r => do
                let chosen ← D.choose r
                chosen.elim (.ok order) (D.visit fuel (D.key node :: visiting) order)) order =
                  .ok order' ∧ D.Ordered pool order' ∧ order ⊆ order' ∧
              (∀ r ∈ rs, ∀ b, D.choose r = .ok (some b) → b ∈ order') ∧
              ∀ k ∈ D.key node :: visiting, k ∉ order'.map D.key := by
          intro rs
          induction rs with
          | nil =>
              intro _ order ordered apart
              exact ⟨order, rfl, ordered, List.Subset.refl _, fun _ h => absurd h List.not_mem_nil, apart⟩
          | cons r rs ihr =>
              intro sub order ordered apart
              obtain ⟨o, chosen, within⟩ := h.resolved node inside r (sub r (List.mem_cons_self ..))
              have sub' := fun r hr => sub r (List.mem_cons_of_mem _ hr)
              cases o with
              | none =>
                  obtain ⟨order', run, ordered', more, found, apart'⟩ := ihr sub' order ordered apart
                  refine ⟨order', ?_, ordered', more, fun r' hr' b hb => ?_, apart'⟩
                  · rw [List.foldlM_cons, chosen]
                    exact run
                  · rcases List.mem_cons.mp hr' with rfl | hr'
                    · cases chosen.symm.trans hb
                    · exact found r' hr' b hb
              | some next =>
                  have needs : D.Needs node next := ⟨r, sub r (List.mem_cons_self ..), chosen⟩
                  obtain ⟨order₁, run₁, ordered₁, more₁, found₁, apart₁⟩ :=
                    ih (D.key node :: visiting) order next (within next rfl) ordered
                      (fun k hk => by
                        rcases List.mem_cons.mp hk with rfl | hk
                        · exact ⟨node, inside, rfl, .single needs⟩
                        · obtain ⟨t, ht, same, path⟩ := above k hk
                          exact ⟨t, ht, same, path.tail needs⟩)
                      (List.nodup_cons.mpr ⟨fresh, distinct⟩) apart
                      (by rw [List.length_cons]; omega)
                  obtain ⟨order', run, ordered', more, found, apart'⟩ := ihr sub' order₁ ordered₁ apart₁
                  refine ⟨order', ?_, ordered', List.Subset.trans more₁ more, fun r' hr' b hb => ?_,
                    apart'⟩
                  · rw [List.foldlM_cons, chosen]
                    show (D.visit fuel (D.key node :: visiting) order next >>= _) = _
                    rw [run₁]
                    exact run
                  · rcases List.mem_cons.mp hr' with rfl | hr'
                    · cases chosen.symm.trans hb
                      exact more found₁
                    · exact found r' hr' b hb
        obtain ⟨order', run, ordered', more, found, apart'⟩ :=
          loop (D.requires node) (fun _ hr => hr) order ordered fun k hk => by
            rcases List.mem_cons.mp hk with rfl | hk
            · exact unknown
            · exact apart k hk
        have absent : node ∉ order' := fun ha =>
          apart' _ (List.mem_cons_self ..) (List.mem_map_of_mem ha)
        refine ⟨order' ++ [node], ?_, ordered'.snoc inside absent ?_, ?_, ?_, fun k hk => ?_⟩
        · rw [run]
          rfl
        · rintro b ⟨r, hr, chosen⟩
          exact found r hr b chosen
        · exact fun a ha => List.mem_append_left _ (more ha)
        · exact List.mem_append_right _ (List.mem_singleton_self _)
        · rw [List.map_append, List.mem_append, not_or]
          refine ⟨apart' k (List.mem_cons_of_mem _ hk), fun same => fresh ?_⟩
          rw [List.map_cons, List.map_nil, List.mem_singleton] at same
          exact same ▸ hk

/-- Visiting a pool orders all of it. -/
theorem order_ok (h : D.Resolvable pool) :
    ∃ order, D.order pool = .ok order ∧ D.Ordered pool order ∧ order.Perm pool := by
  have loop : ∀ l : List ν, l ⊆ pool → ∀ order, D.Ordered pool order →
      ∃ order', l.foldlM (D.visit (pool.length + 1) []) order = .ok order' ∧
        D.Ordered pool order' ∧ order ⊆ order' ∧ l ⊆ order' := by
    intro l
    induction l with
    | nil => exact fun _ order ordered => ⟨order, rfl, ordered, List.Subset.refl _, List.nil_subset _⟩
    | cons node l ih =>
        intro sub order ordered
        obtain ⟨order₁, run₁, ordered₁, more₁, found₁, -⟩ :=
          visit_ok h (pool.length + 1) [] order node (sub (List.mem_cons_self ..)) ordered
            (fun _ hk => absurd hk List.not_mem_nil) List.nodup_nil
            (fun _ hk => absurd hk List.not_mem_nil) (by rw [List.length_nil]; omega)
        obtain ⟨order', run, ordered', more, found⟩ :=
          ih (fun a ha => sub (List.mem_cons_of_mem _ ha)) order₁ ordered₁
        refine ⟨order', ?_, ordered', List.Subset.trans more₁ more, fun a ha => ?_⟩
        · rw [List.foldlM_cons, run₁]
          exact run
        · rcases List.mem_cons.mp ha with rfl | ha
          · exact more found₁
          · exact found ha
  obtain ⟨order, run, ordered, -, all⟩ := loop pool (List.Subset.refl _) [] .nil
  refine ⟨order, run, ordered, ?_⟩
  rw [List.perm_ext_iff_of_nodup ordered.nodup (List.Nodup.of_map D.key h.keys)]
  exact fun a => ⟨ordered.inside a, fun ha => all ha⟩

end Dependencies

end Library

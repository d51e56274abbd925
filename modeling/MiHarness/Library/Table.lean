import Mathlib.Algebra.BigOperators.Group.List.Basic
import Mathlib.Data.List.Nodup
import Mathlib.Tactic.Abel

/-!
# Tables keyed by a primary key

A table is a list of keyed rows in insertion order whose keys are distinct.  The
distinctness is a field, so a table with two rows of one key cannot be built.  Every
update keeps it: a row is changed through `mapRows`, which sees the key and cannot
change it, and added through `insert?`, which refuses a key that is there.

`get?` reads a row.  Its equations at `mapRows`, `modify` and `insert?` are simp lemmas,
so that a statement about one row of an updated table rewrites to a statement about the
row before.  `mem_rows` moves between a row read by key and a row met in a scan.
`total` sums a function of the rows; an update of one row changes it by that row's share.
-/

namespace Library

/-- Keyed rows in insertion order, no key twice. -/
structure Table (κ α : Type) where
  /-- The rows, oldest first. -/
  rows : List (κ × α)
  /-- No key occurs twice. -/
  nodup : (rows.map Prod.fst).Nodup

namespace Table

variable {κ α : Type}

/-- The table without rows. -/
def empty : Table κ α := ⟨[], List.nodup_nil⟩

/-- The keys, oldest first. -/
def keys (t : Table κ α) : List κ := t.rows.map Prod.fst

/-- Change every row by a function of its key and value. -/
def mapRows (t : Table κ α) (f : κ → α → α) : Table κ α where
  rows := t.rows.map fun e => (e.1, f e.1 e.2)
  nodup := by simpa [Function.comp_def] using t.nodup

/-- Append a row of a new key. -/
def insert (t : Table κ α) (k : κ) (a : α) (fresh : k ∉ t.keys) : Table κ α where
  rows := t.rows ++ [(k, a)]
  nodup := by
    rw [List.map_append, List.nodup_append]
    refine ⟨t.nodup, by simp, fun x hx y hy => ?_⟩
    rw [List.map_cons, List.map_nil, List.mem_singleton] at hy
    subst hy
    exact fun h => fresh (h ▸ hx)

/-- The rows that satisfy a test, oldest first. -/
def select (t : Table κ α) (p : κ → α → Bool) : List (κ × α) :=
  t.rows.filter fun e => p e.1 e.2

/-- Whether some row satisfies a test. -/
def any (t : Table κ α) (p : κ → α → Bool) : Bool := t.rows.any fun e => p e.1 e.2

variable [DecidableEq κ]

/-- The row of a key. -/
def get? (t : Table κ α) (k : κ) : Option α := t.rows.lookup k

/-- Append a row, refused when the key is taken. -/
def insert? (t : Table κ α) (k : κ) (a : α) : Option (Table κ α) :=
  if fresh : k ∈ t.keys then none else some (t.insert k a fresh)

/-- Change the row of one key. -/
def modify (t : Table κ α) (k : κ) (f : α → α) : Table κ α :=
  t.mapRows fun k' a => if k' = k then f a else a

/-- Set the row of a key, new or not. -/
def put (t : Table κ α) (k : κ) (a : α) : Table κ α :=
  (t.insert? k a).getD (t.modify k fun _ => a)

/-- Remove the row of a key. -/
def erase (t : Table κ α) (k : κ) : Table κ α where
  rows := t.rows.filter fun e => e.1 ≠ k
  nodup := t.nodup.sublist (List.filter_sublist.map Prod.fst)

/-- Keep only the rows whose key satisfies a test. -/
def retain (t : Table κ α) (p : κ → Bool) : Table κ α where
  rows := t.rows.filter fun e => p e.1
  nodup := t.nodup.sublist (List.filter_sublist.map Prod.fst)

/-! ## Reading and scanning -/

theorem mem_of_lookup {l : List (κ × α)} {k : κ} {a : α} (h : l.lookup k = some a) :
    (k, a) ∈ l := by
  induction l with
  | nil => simp at h
  | cons e l ih =>
      rw [List.lookup_cons] at h
      by_cases hk : k = e.1
      · simp only [hk, beq_self_eq_true, Option.some.injEq] at h
        rw [hk, ← h]
        exact List.mem_cons_self ..
      · rw [beq_false_of_ne hk] at h
        exact List.mem_cons_of_mem _ (ih h)

theorem lookup_of_mem {l : List (κ × α)} {k : κ} {a : α} (distinct : (l.map Prod.fst).Nodup)
    (h : (k, a) ∈ l) : l.lookup k = some a := by
  induction l with
  | nil => simp at h
  | cons e l ih =>
      rw [List.map_cons, List.nodup_cons] at distinct
      rw [List.lookup_cons]
      rcases List.mem_cons.mp h with rfl | h
      · simp
      · have hk : k ≠ e.1 := fun he => distinct.1 (he ▸ List.mem_map_of_mem (f := Prod.fst) h)
        rw [beq_false_of_ne hk]
        exact ih distinct.2 h

/-- A row met in a scan is the row read by its key. -/
theorem mem_rows {t : Table κ α} {k : κ} {a : α} : (k, a) ∈ t.rows ↔ t.get? k = some a :=
  ⟨lookup_of_mem t.nodup, mem_of_lookup⟩

theorem mem_keys {t : Table κ α} {k : κ} : k ∈ t.keys ↔ ∃ a, t.get? k = some a := by
  constructor
  · intro h
    obtain ⟨⟨k', a⟩, hmem, rfl⟩ := List.mem_map.mp h
    exact ⟨a, mem_rows.mp hmem⟩
  · rintro ⟨a, h⟩
    exact List.mem_map_of_mem (f := Prod.fst) (mem_rows.mpr h)

theorem get?_eq_none {t : Table κ α} {k : κ} : t.get? k = none ↔ k ∉ t.keys := by
  rw [mem_keys, Option.eq_none_iff_forall_ne_some]
  push Not
  exact Iff.rfl

theorem mem_select {t : Table κ α} {p : κ → α → Bool} {k : κ} {a : α} :
    (k, a) ∈ t.select p ↔ t.get? k = some a ∧ p k a = true := by
  rw [select, List.mem_filter, mem_rows]

omit [DecidableEq κ] in
theorem nodup_select (t : Table κ α) (p : κ → α → Bool) :
    ((t.select p).map Prod.fst).Nodup :=
  t.nodup.sublist (List.filter_sublist.map Prod.fst)

theorem any_iff {t : Table κ α} {p : κ → α → Bool} :
    t.any p = true ↔ ∃ k a, t.get? k = some a ∧ p k a = true := by
  rw [any, List.any_eq_true]
  constructor
  · rintro ⟨⟨k, a⟩, hmem, hp⟩
    exact ⟨k, a, mem_rows.mp hmem, hp⟩
  · rintro ⟨k, a, hget, hp⟩
    exact ⟨(k, a), mem_rows.mpr hget, hp⟩

theorem any_eq_false {t : Table κ α} {p : κ → α → Bool} :
    t.any p = false ↔ ∀ k a, t.get? k = some a → p k a = false := by
  rw [← Bool.not_eq_true, any_iff]
  push Not
  exact ⟨fun h k a hk => Bool.eq_false_iff.mpr (h k a hk),
    fun h k a hk => Bool.eq_false_iff.mp (h k a hk)⟩

/-! ## Reading an updated table -/

@[simp] theorem get?_empty (k : κ) : (empty : Table κ α).get? k = none := rfl

@[simp] theorem get?_mapRows (t : Table κ α) (f : κ → α → α) (k : κ) :
    (t.mapRows f).get? k = (t.get? k).map (f k) := by
  obtain ⟨rows, nodup⟩ := t
  simp only [get?, mapRows]
  clear nodup
  induction rows with
  | nil => rfl
  | cons e l ih =>
      rw [List.map_cons, List.lookup_cons, List.lookup_cons]
      by_cases hk : k = e.1
      · subst hk; simp
      · simp only [beq_false_of_ne hk]
        exact ih

theorem get?_modify (t : Table κ α) (k k' : κ) (f : α → α) :
    (t.modify k f).get? k' = if k' = k then (t.get? k').map f else t.get? k' := by
  rw [modify, get?_mapRows]
  split
  · rfl
  · exact Option.map_id'

@[simp] theorem get?_modify_self (t : Table κ α) (k : κ) (f : α → α) :
    (t.modify k f).get? k = (t.get? k).map f := by
  rw [get?_modify, if_pos rfl]

theorem get?_modify_ne (t : Table κ α) {k k' : κ} (f : α → α) (h : k' ≠ k) :
    (t.modify k f).get? k' = t.get? k' := by
  rw [get?_modify, if_neg h]

theorem get?_modify_found {t : Table κ α} {k : κ} {a : α} (f : α → α) (h : t.get? k = some a)
    (k' : κ) : (t.modify k f).get? k' = if k' = k then some (f a) else t.get? k' := by
  rw [get?_modify]
  split
  · rename_i same
    rw [same, h]
    rfl
  · rfl

theorem get?_modify_some {t : Table κ α} {k k' : κ} {a : α} (f : α → α) (h : t.get? k' = some a) :
    ∃ a', (t.modify k f).get? k' = some a' := by
  rw [get?_modify, h]
  split
  · exact ⟨f a, rfl⟩
  · exact ⟨a, rfl⟩

theorem get?_insert (t : Table κ α) (k k' : κ) (a : α) (fresh : k ∉ t.keys) :
    (t.insert k a fresh).get? k' = if k' = k then some a else t.get? k' := by
  by_cases hk : k' = k
  · subst hk
    rw [if_pos rfl, ← mem_rows]
    exact List.mem_append_right _ (List.mem_singleton_self _)
  · rw [if_neg hk]
    refine Option.ext fun b => ?_
    show (t.insert k a fresh).get? k' = some b ↔ t.get? k' = some b
    rw [← mem_rows, ← mem_rows, insert, List.mem_append, List.mem_singleton, Prod.mk.injEq]
    exact ⟨fun h => h.resolve_right fun he => hk he.1, Or.inl⟩

/-- Only the row of the key matters to a change of that row. -/
theorem modify_congr {t : Table κ α} {k : κ} {f g : α → α}
    (h : ∀ a, t.get? k = some a → f a = g a) : t.modify k f = t.modify k g := by
  have rows : (t.modify k f).rows = (t.modify k g).rows := by
    refine List.map_congr_left fun e he => ?_
    dsimp only
    split
    · rename_i hk
      rw [h e.2 (mem_rows.mp (hk ▸ he))]
    · rfl
  cases hf : t.modify k f
  cases hg : t.modify k g
  rw [hf, hg] at rows
  cases rows
  rfl

theorem modify_eq_self {t : Table κ α} {k : κ} {f : α → α}
    (h : ∀ a, t.get? k = some a → f a = a) : t.modify k f = t := by
  have rows : (t.modify k id).rows = t.rows := by
    simp [modify, mapRows]
  rw [modify_congr (g := id) h]
  cases t
  cases hm : modify ⟨_, _⟩ k id
  rw [hm] at rows
  cases rows
  rfl

theorem modify_modify (t : Table κ α) (k : κ) (f g : α → α) :
    (t.modify k f).modify k g = t.modify k fun a => g (f a) := by
  have rows : ((t.modify k f).modify k g).rows = (t.modify k fun a => g (f a)).rows := by
    simp only [modify, mapRows, List.map_map]
    refine List.map_congr_left fun e _ => ?_
    by_cases hk : e.1 = k <;> simp [hk]
  cases hf : (t.modify k f).modify k g
  cases hg : t.modify k fun a => g (f a)
  rw [hf, hg] at rows
  cases rows
  rfl

theorem insert?_eq_some {t t' : Table κ α} {k : κ} {a : α} (h : t.insert? k a = some t') :
    t.get? k = none ∧ ∀ k', t'.get? k' = if k' = k then some a else t.get? k' := by
  unfold insert? at h
  split at h
  · cases h
  · rename_i fresh
    cases h
    exact ⟨get?_eq_none.mpr fresh, fun k' => get?_insert t k k' a fresh⟩

theorem insert?_of_fresh {t : Table κ α} {k : κ} (a : α) (h : t.get? k = none) :
    ∃ t', t.insert? k a = some t' := by
  have fresh : k ∉ t.keys := get?_eq_none.mp h
  exact ⟨t.insert k a fresh, dif_neg fresh⟩

theorem select_insert? {t t' : Table κ α} {k : κ} {a : α} (h : t.insert? k a = some t')
    (p : κ → α → Bool) : t'.select p = t.select p ++ if p k a = true then [(k, a)] else [] := by
  unfold insert? at h
  split at h
  · cases h
  · cases h
    rw [select, insert, List.filter_append]
    exact congrArg _ List.filter_cons

/-- A new row may be changed before it is inserted. -/
theorem insert?_modify {t t' : Table κ α} {k : κ} {a : α} (f : α → α) (h : t.insert? k a = some t') :
    t.insert? k (f a) = some (t'.modify k f) := by
  unfold insert? at h ⊢
  split at h
  · cases h
  · rename_i fresh
    cases h
    rw [dif_neg fresh]
    have others : (t.modify k f).rows = t.rows := by
      rw [modify_eq_self fun b hb => absurd (mem_keys.mpr ⟨b, hb⟩) fresh]
    have rows : (t.insert k (f a) fresh).rows = ((t.insert k a fresh).modify k f).rows := by
      simp only [insert, modify, mapRows, List.map_append, List.map_cons, List.map_nil, if_pos] at others ⊢
      rw [others]
    cases hf : t.insert k (f a) fresh
    cases hg : (t.insert k a fresh).modify k f
    rw [hf, hg] at rows
    cases rows
    rfl

theorem get?_put (t : Table κ α) (k k' : κ) (a : α) :
    (t.put k a).get? k' = if k' = k then some a else t.get? k' := by
  unfold put
  cases h : t.insert? k a with
  | some t' => exact (insert?_eq_some h).2 k'
  | none =>
      have present : k ∈ t.keys := by
        by_contra fresh
        rw [insert?, dif_neg fresh] at h
        cases h
      obtain ⟨b, hb⟩ := mem_keys.mp present
      rw [Option.getD_none, get?_modify]
      split
      · rename_i same
        rw [same, hb]
        rfl
      · rfl

theorem get?_erase (t : Table κ α) (k k' : κ) :
    (t.erase k).get? k' = if k' = k then none else t.get? k' := by
  refine Option.ext fun a => ?_
  rw [← mem_rows, erase, List.mem_filter, mem_rows]
  split
  · rename_i same
    simp [same]
  · rename_i other
    simp [other]

theorem get?_retain (t : Table κ α) (p : κ → Bool) (k : κ) :
    (t.retain p).get? k = if p k = true then t.get? k else none := by
  refine Option.ext fun a => ?_
  rw [← mem_rows, retain, List.mem_filter, mem_rows]
  split
  · rename_i kept
    simp [kept]
  · rename_i dropped
    simp [dropped]

/-! ## Sums over the rows -/

section Total

variable {M : Type} [AddCommMonoid M]

/-- The sum of a function of the rows. -/
def total (t : Table κ α) (f : α → M) : M := (t.rows.map fun e => f e.2).sum

theorem total_insert? {t t' : Table κ α} {k : κ} {a : α} (h : t.insert? k a = some t')
    (f : α → M) : t'.total f = t.total f + f a := by
  unfold insert? at h
  split at h
  · cases h
  · cases h
    simp [total, insert]

/-- The sum changes by the share of the row that changes. -/
theorem total_modify {t : Table κ α} {k : κ} {a : α} (h : t.get? k = some a) (g : α → α)
    (f : α → M) : (t.modify k g).total f + f a = t.total f + f (g a) := by
  have hmem := mem_rows.mpr h
  obtain ⟨before, after, split⟩ := List.append_of_mem hmem
  have distinct := t.nodup
  rw [split, List.map_append, List.map_cons, List.nodup_append, List.nodup_cons] at distinct
  obtain ⟨-, ⟨notAfter, -⟩, apart⟩ := distinct
  have others : ∀ l : List (κ × α), k ∉ l.map Prod.fst →
      (l.map fun e => (e.1, if e.1 = k then g e.2 else e.2)) = l := by
    intro l hl
    refine (List.map_congr_left fun e he => ?_).trans (List.map_id l)
    have ne : e.1 ≠ k := fun same => hl (same ▸ List.mem_map_of_mem (f := Prod.fst) he)
    simp [ne]
  have notBefore : k ∉ before.map Prod.fst := fun hk => apart k hk k (List.mem_cons_self ..) rfl
  have rows : (t.modify k g).rows = before ++ (k, g a) :: after := by
    simp only [modify, mapRows, split, List.map_append, List.map_cons, if_true]
    rw [others before notBefore, others after notAfter]
  simp only [total, rows, split, List.map_append, List.map_cons, List.sum_append, List.sum_cons]
  abel

/-- A change that keeps the share of every row keeps the sum. -/
theorem total_modify_of_eq {t : Table κ α} {k : κ} {g : α → α} {f : α → M}
    (h : ∀ a, t.get? k = some a → f (g a) = f a) : (t.modify k g).total f = t.total f := by
  simp only [total, modify, mapRows, List.map_map]
  refine congrArg List.sum (List.map_congr_left fun e he => ?_)
  by_cases same : e.1 = k
  · simp [same, h e.2 (mem_rows.mp (same ▸ he))]
  · simp [same]

end Total

omit [DecidableEq κ] in
/-- The number of rows that satisfy a test is a sum over the rows. -/
theorem length_select (t : Table κ α) (p : α → Bool) :
    (t.select fun _ a => p a).length = t.total fun a => if p a = true then 1 else 0 := by
  rw [select, total]
  induction t.rows with
  | nil => rfl
  | cons e rows ih =>
      by_cases h : p e.2 = true
      · simp [h, ih, Nat.add_comm]
      · simp [h, ih]

/-- Changing one row adds at most one row to those that satisfy a test. -/
theorem length_select_modify_le (t : Table κ α) (k : κ) (g : α → α) (p : α → Bool) :
    ((t.modify k g).select fun _ a => p a).length ≤ (t.select fun _ a => p a).length + 1 := by
  rw [length_select, length_select]
  cases h : t.get? k with
  | none => rw [total_modify_of_eq fun a ha => by rw [h] at ha; cases ha]; omega
  | some a =>
      have change := total_modify h g fun a => if p a = true then 1 else 0
      split at change <;> split at change <;> omega

/-- It adds none when the row satisfies the test only if it did before. -/
theorem length_select_modify {t : Table κ α} {k : κ} {a : α} {g : α → α} {p : α → Bool}
    (h : t.get? k = some a) (kept : p (g a) = true → p a = true) :
    ((t.modify k g).select fun _ a => p a).length ≤ (t.select fun _ a => p a).length := by
  rw [length_select, length_select]
  have change := total_modify h g fun a => if p a = true then 1 else 0
  by_cases after : p (g a) = true
  · rw [if_pos after, if_pos (kept after)] at change
    omega
  · rw [if_neg after] at change
    omega

theorem length_select_insert? {t t' : Table κ α} {k : κ} {a : α} {p : α → Bool}
    (h : t.insert? k a = some t') (fails : p a = false) :
    (t'.select fun _ a => p a).length = (t.select fun _ a => p a).length := by
  rw [length_select, length_select, total_insert? h, fails]
  rfl

/-- Setting one row adds at most one row to those that satisfy a test. -/
theorem length_select_put_le (t : Table κ α) (k : κ) (a : α) (p : α → Bool) :
    ((t.put k a).select fun _ a => p a).length ≤ (t.select fun _ a => p a).length + 1 := by
  rw [put]
  cases h : t.insert? k a with
  | none => exact length_select_modify_le t k _ p
  | some t' =>
      rw [Option.getD_some, length_select, length_select, total_insert? h]
      split <;> omega

theorem length_select_erase_le (t : Table κ α) (k : κ) (p : α → Bool) :
    ((t.erase k).select fun _ a => p a).length ≤ (t.select fun _ a => p a).length :=
  (List.filter_sublist.filter _).length_le

/-- The number of rows that satisfy a test depends on what is read by key. -/
theorem length_select_congr {β : Type} {t t' : Table κ α} (f : α → β) {p : α → Bool} {q : β → Bool}
    (h : ∀ k, (t'.get? k).map f = (t.get? k).map f) (test : ∀ a, p a = q (f a)) :
    (t'.select fun _ a => p a).length = (t.select fun _ a => p a).length := by
  have keys : ∀ (u : Table κ α) (k : κ), k ∈ (u.select fun _ a => p a).map Prod.fst ↔
      ∃ b, (u.get? k).map f = some b ∧ q b = true := by
    intro u k
    rw [List.mem_map]
    constructor
    · rintro ⟨⟨k', a⟩, he, rfl⟩
      obtain ⟨ha, hp⟩ := mem_select.mp he
      exact ⟨f a, by rw [ha]; rfl, test a ▸ hp⟩
    · rintro ⟨b, hb, hq⟩
      obtain ⟨a, ha, rfl⟩ := Option.map_eq_some_iff.mp hb
      exact ⟨(k, a), mem_select.mpr ⟨ha, (test a).trans hq⟩, rfl⟩
  have same : ((t'.select fun _ a => p a).map Prod.fst).Perm
      ((t.select fun _ a => p a).map Prod.fst) := by
    rw [List.perm_ext_iff_of_nodup (nodup_select _ _) (nodup_select _ _)]
    intro k
    rw [keys, keys, h]
  simpa using same.length_eq

end Table

end Library

import Mathlib.Data.List.Basic

/-!
# Merging by a key

A list of entries some of which have a key.  An entry is placed by joining it to the first entry of its
key, or at the end when there is none or it has no key.  Lists are merged by placing the entries of the
second one after the other.  Every entry of a merged list is one that came, joined with later ones of
its own key (`mem_merge`).  When the entries of the middle list have distinct keys, merging is
associative (`merge_merge`), and what is read of the entries of one key is read in the order in which
they came (`readAt_merge`).
-/

namespace Library

variable {α κ β : Type}

/-- How entries are told apart and joined. -/
structure Merging (α κ : Type) where
  key : α → Option κ
  join : α → α → α

structure Merging.Lawful (m : Merging α κ) : Prop where
  key_join : ∀ x y, m.key (m.join x y) = m.key x
  assoc : ∀ x y z, m.join (m.join x y) z = m.join x (m.join y z)

namespace Merging

variable {m : Merging α κ} {l : List α} {e x y : α}

/-- The entries that an entry may be joined to. -/
def Same (m : Merging α κ) (x e : α) : Prop := m.key e ≠ none ∧ m.key x = m.key e

theorem Same.trans (h : m.Same x y) (h' : m.Same y e) : m.Same x e :=
  ⟨h'.1, h.2.trans h'.2⟩

theorem same_join_left (lawful : m.Lawful) : m.Same (m.join x y) e ↔ m.Same x e := by
  unfold Same
  rw [lawful.key_join]

theorem same_join_right (lawful : m.Lawful) : m.Same x (m.join e y) ↔ m.Same x e := by
  unfold Same
  rw [lawful.key_join]

variable [DecidableEq κ]

instance (m : Merging α κ) (x e : α) : Decidable (m.Same x e) :=
  inferInstanceAs (Decidable (_ ∧ _))

def place (m : Merging α κ) : List α → α → List α
  | [], e => [e]
  | x :: xs, e => if m.Same x e then m.join x e :: xs else x :: place m xs e

def merge (m : Merging α κ) (l l' : List α) : List α := l'.foldl m.place l

/-- Entries of different keys, or without one. -/
def Apart (m : Merging α κ) (l : List α) : Prop := l.Pairwise fun x y => ¬m.Same x y

theorem place_same (h : m.Same x e) : m.place (x :: l) e = m.join x e :: l := if_pos h

theorem place_other (h : ¬m.Same x e) : m.place (x :: l) e = x :: m.place l e := if_neg h

theorem mem_place : ∀ {l : List α} {z : α}, z ∈ m.place l e →
    z = e ∨ z ∈ l ∨ ∃ x ∈ l, m.Same x e ∧ z = m.join x e
  | [], z, h => .inl (List.mem_singleton.mp h)
  | x :: l, z, h => by
      by_cases here : m.Same x e
      · rw [place_same here] at h
        rcases List.mem_cons.mp h with rfl | h
        · exact .inr (.inr ⟨x, List.mem_cons_self .., here, rfl⟩)
        · exact .inr (.inl (List.mem_cons_of_mem _ h))
      · rw [place_other here] at h
        rcases List.mem_cons.mp h with rfl | h
        · exact .inr (.inl (List.mem_cons_self ..))
        · rcases mem_place h with rfl | old | ⟨y, hy, same, rfl⟩
          · exact .inl rfl
          · exact .inr (.inl (List.mem_cons_of_mem _ old))
          · exact .inr (.inr ⟨y, List.mem_cons_of_mem _ hy, same, rfl⟩)

section Lawful

variable (lawful : m.Lawful)

include lawful

/-- Two entries of one key are placed like their join. -/
theorem place_place (h : m.Same x e) : ∀ l : List α,
    m.place (m.place l x) e = m.place l (m.join x e)
  | [] => place_same h
  | y :: l => by
      by_cases here : m.Same y x
      · rw [place_same here, place_same ((same_join_left lawful).mpr (here.trans h)),
          place_same ((same_join_right lawful).mpr here), lawful.assoc]
      · have there : ¬m.Same y e := fun h' =>
          here ⟨fun none => h.1 (h.2.symm.trans none), h'.2.trans h.2.symm⟩
        rw [place_other here, place_other there,
          place_other (fun h' => here ((same_join_right lawful).mp h')), place_place h l]

/-- An entry that finds its key is placed before or after an entry of another key. -/
theorem place_comm (h : ¬m.Same y e) : ∀ {l : List α}, (∃ x ∈ l, m.Same x e) →
    m.place (m.place l e) y = m.place (m.place l y) e
  | [], found => by
      obtain ⟨_, hx, _⟩ := found
      exact absurd hx List.not_mem_nil
  | z :: l, found => by
      by_cases here : m.Same z e
      · by_cases there : m.Same z y
        · exact absurd ⟨here.1, there.2.symm.trans here.2⟩ h
        · rw [place_same here, place_other there, place_same here,
            place_other (fun h' => there ((same_join_left lawful).mp h'))]
      · have later : ∃ x ∈ l, m.Same x e := by
          obtain ⟨x, hx, same⟩ := found
          rcases List.mem_cons.mp hx with rfl | hx
          · exact absurd same here
          · exact ⟨x, hx, same⟩
        by_cases there : m.Same z y
        · rw [place_other here, place_same there, place_same there,
            place_other (fun h' => here ((same_join_left lawful).mp h'))]
        · rw [place_other here, place_other there, place_other there, place_other here,
            place_comm h later]

/-- What is found is found after a placement. -/
theorem found_place : ∀ {l : List α}, (∃ x ∈ l, m.Same x e) → ∃ x ∈ m.place l y, m.Same x e
  | [], found => by
      obtain ⟨_, hx, _⟩ := found
      exact absurd hx List.not_mem_nil
  | z :: l, found => by
      obtain ⟨x, hx, same⟩ := found
      by_cases here : m.Same z y
      · rw [place_same here]
        rcases List.mem_cons.mp hx with rfl | hx
        · exact ⟨_, List.mem_cons_self .., (same_join_left lawful).mpr same⟩
        · exact ⟨x, List.mem_cons_of_mem _ hx, same⟩
      · rw [place_other here]
        rcases List.mem_cons.mp hx with rfl | hx
        · exact ⟨x, List.mem_cons_self .., same⟩
        · obtain ⟨x, hx, same⟩ := found_place ⟨x, hx, same⟩
          exact ⟨x, List.mem_cons_of_mem _ hx, same⟩

theorem found_self : ∀ l : List α, m.key e ≠ none → ∃ x ∈ m.place l e, m.Same x e
  | [], h => ⟨e, List.mem_singleton_self _, h, rfl⟩
  | z :: l, h => by
      by_cases here : m.Same z e
      · rw [place_same here]
        exact ⟨_, List.mem_cons_self .., (same_join_left lawful).mpr here⟩
      · rw [place_other here]
        obtain ⟨x, hx, same⟩ := found_self l h
        exact ⟨x, List.mem_cons_of_mem _ hx, same⟩

/-- An entry whose key is there can be placed last. -/
theorem merge_comm : ∀ {ys l : List α}, (∀ y ∈ ys, ¬m.Same y e) → (∃ x ∈ l, m.Same x e) →
    m.merge (m.place l e) ys = m.place (m.merge l ys) e
  | [], _, _, _ => rfl
  | y :: ys, l, others, found => by
      unfold merge
      rw [List.foldl_cons, List.foldl_cons,
        place_comm lawful (others y (List.mem_cons_self ..)) found]
      exact merge_comm (fun y hy => others y (List.mem_cons_of_mem _ hy)) (found_place lawful found)

/-- Placing an entry in a list and merging the list is merging it and placing the entry. -/
theorem merge_place : ∀ {ys l : List α}, m.Apart ys →
    m.merge l (m.place ys e) = m.place (m.merge l ys) e
  | [], _, _ => rfl
  | y :: ys, l, apart => by
      obtain ⟨first, apart⟩ := List.pairwise_cons.mp apart
      by_cases here : m.Same y e
      · have others : ∀ z ∈ ys, ¬m.Same z e := fun z hz same =>
          first z hz ⟨fun none => same.1 (same.2.symm.trans none), here.2.trans same.2.symm⟩
        have keyed : m.key y ≠ none := fun none => here.1 (here.2.symm.trans none)
        have found : ∃ x ∈ m.place l y, m.Same x e := by
          obtain ⟨x, hx, same⟩ := found_self lawful l keyed
          exact ⟨x, hx, same.trans here⟩
        rw [place_same here]
        show m.merge (m.place l (m.join y e)) ys = m.place (m.merge (m.place l y) ys) e
        rw [← place_place lawful here, merge_comm lawful others found]
      · rw [place_other here]
        exact merge_place apart

theorem Apart.place : ∀ {l : List α}, m.Apart l → m.Apart (m.place l e)
  | [], _ => List.pairwise_singleton ..
  | x :: l, apart => by
      obtain ⟨first, apart⟩ := List.pairwise_cons.mp apart
      by_cases here : m.Same x e
      · rw [place_same here]
        exact List.pairwise_cons.mpr
          ⟨fun y hy same => first y hy ((same_join_left lawful).mp same), apart⟩
      · rw [place_other here]
        refine List.pairwise_cons.mpr ⟨fun y hy same => ?_, Apart.place apart⟩
        rcases mem_place hy with rfl | old | ⟨z, hz, _, rfl⟩
        · exact here same
        · exact first y old same
        · exact first z hz ((same_join_right lawful).mp same)

theorem Apart.merge : ∀ (ys : List α) {l : List α}, m.Apart l → m.Apart (m.merge l ys)
  | [], _, apart => apart
  | _ :: ys, _, apart => Apart.merge ys (apart.place lawful)

/-- Merging is associative over a middle list of distinct keys. -/
theorem merge_merge {l ys : List α} (apart : m.Apart ys) : ∀ zs : List α,
    m.merge l (m.merge ys zs) = m.merge (m.merge l ys) zs := by
  intro zs
  induction zs generalizing ys with
  | nil => rfl
  | cons z zs ih =>
      show m.merge l (m.merge (m.place ys z) zs) = m.merge (m.place (m.merge l ys) z) zs
      rw [ih (apart.place lawful), merge_place lawful apart]

/-- `x` is an entry of `l` joined with later entries of its own key, in the order in which they stand
there.  An entry without a key is joined with nothing. -/
def Built (m : Merging α κ) (l : List α) (x : α) : Prop :=
  ∃ first later, (first :: later).Sublist l ∧ (∀ e ∈ later, m.Same first e) ∧
    x = later.foldl m.join first

omit [DecidableEq κ] in
theorem key_foldl : ∀ (later : List α) (x : α), m.key (later.foldl m.join x) = m.key x
  | [], _ => rfl
  | e :: later, x => by
      rw [List.foldl_cons, key_foldl later, lawful.key_join]

omit [DecidableEq κ] lawful in
theorem Built.mono {l' : List α} (h : m.Built l x) (sub : l.Sublist l') : m.Built l' x := by
  obtain ⟨first, later, taken, own, built⟩ := h
  exact ⟨first, later, taken.trans sub, own, built⟩

omit [DecidableEq κ] in
/-- A join is built when an entry of the key comes behind what has been built. -/
theorem Built.join (h : m.Built l x) (same : m.Same x e) : m.Built (l ++ [e]) (m.join x e) := by
  obtain ⟨first, later, taken, own, rfl⟩ := h
  rw [Same, key_foldl lawful] at same
  refine ⟨first, later ++ [e], taken.append (List.Sublist.refl [e]), fun y hy => ?_, ?_⟩
  · rcases List.mem_append.mp hy with old | new
    · exact own y old
    · exact List.mem_singleton.mp new ▸ same
  · rw [List.foldl_append]
    rfl

theorem built_place {seen : List α} (built : ∀ z ∈ l, m.Built seen z) :
    ∀ z ∈ m.place l e, m.Built (seen ++ [e]) z := by
  intro z hz
  rcases mem_place hz with rfl | old | ⟨x, hx, same, rfl⟩
  · exact ⟨z, [], List.sublist_append_right _ _, fun _ h => absurd h List.not_mem_nil, rfl⟩
  · exact (built z old).mono (List.sublist_append_left _ _)
  · exact (built x hx).join lawful same

theorem built_merge : ∀ (ys : List α) {l seen : List α}, (∀ z ∈ l, m.Built seen z) →
    ∀ z ∈ m.merge l ys, m.Built (seen ++ ys) z
  | [], _, _, built => fun z hz => by
      rw [List.append_nil]
      exact built z hz
  | y :: ys, _, _, built => fun z hz => by
      rw [← List.singleton_append, ← List.append_assoc]
      exact built_merge ys (built_place lawful built) z hz

/-- Every entry of a merged list is built of the entries of the two lists. -/
theorem mem_merge {l ys : List α} {z : α} (h : z ∈ m.merge l ys) : m.Built (l ++ ys) z :=
  built_merge lawful ys
    (fun x hx => ⟨x, [], List.singleton_sublist.mpr hx, fun _ h => absurd h List.not_mem_nil, rfl⟩) z h

end Lawful

omit [DecidableEq κ] in
/-- What is built without a key is one of the entries. -/
theorem Built.mem_of_key (h : m.Built l x) (none : m.key x = none) (lawful : m.Lawful) : x ∈ l := by
  obtain ⟨first, later, taken, own, rfl⟩ := h
  cases later with
  | nil => exact taken.subset (List.mem_cons_self ..)
  | cons e later =>
      rw [key_foldl lawful] at none
      have same := own e (List.mem_cons_self ..)
      exact absurd (same.2.symm.trans none) same.1

/-! ## What is read of one key -/

/-- What the entries of key `k` say, one after the other. -/
def readAt (m : Merging α κ) (read : α → List β) (k : κ) (l : List α) : List β :=
  (l.filter fun x => m.key x = some k).flatMap read

/-- No two entries of key `k`. -/
def Alone (m : Merging α κ) (k : κ) (l : List α) : Prop :=
  (l.filter fun x => m.key x = some k).length ≤ 1

section Reading

variable {read : α → List β} {k : κ} (lawful : m.Lawful)

theorem readAt_cons (x : α) (l : List α) :
    m.readAt read k (x :: l) = (if m.key x = some k then read x else []) ++ m.readAt read k l := by
  unfold readAt
  by_cases h : m.key x = some k
  · rw [if_pos h, List.filter_cons, if_pos (decide_eq_true h), List.flatMap_cons]
  · rw [if_neg h, List.filter_cons, if_neg (by simpa using h), List.nil_append]

theorem readAt_append (l l' : List α) :
    m.readAt read k (l ++ l') = m.readAt read k l ++ m.readAt read k l' := by
  unfold readAt
  rw [List.filter_append, List.flatMap_append]

/-- With one entry of a key, that is all there is to read. -/
theorem readAt_of_mem (alone : m.Alone k l) (he : e ∈ l) (key : m.key e = some k) :
    m.readAt read k l = read e := by
  have found : e ∈ l.filter fun x => m.key x = some k :=
    List.mem_filter.mpr ⟨he, decide_eq_true key⟩
  unfold readAt
  unfold Alone at alone
  match l.filter fun x => m.key x = some k, found, alone with
  | [x], found, _ =>
      rw [List.mem_singleton.mp found, List.flatMap_cons, List.flatMap_nil, List.append_nil]
  | x :: y :: rest, _, alone => exact absurd alone (by simp)

include lawful

theorem Alone.of_place (alone : m.Alone k (m.place l e)) : m.Alone k l := by
  refine Nat.le_trans ?_ alone
  clear alone
  induction l with
  | nil => exact Nat.zero_le _
  | cons x l ih =>
      by_cases here : m.Same x e
      · rw [place_same here, List.filter_cons, List.filter_cons, lawful.key_join]
        split <;> simp
      · rw [place_other here, List.filter_cons, List.filter_cons]
        split
        · exact Nat.succ_le_succ ih
        · exact ih

theorem Alone.of_merge : ∀ (ys : List α) {l : List α}, m.Alone k (m.merge l ys) → m.Alone k l
  | [], _, alone => alone
  | _ :: ys, _, alone => (Alone.of_merge ys alone).of_place lawful

variable (joined : ∀ x y, read (m.join x y) = read x ++ read y)

include joined

theorem readAt_place (alone : m.Alone k l) :
    m.readAt read k (m.place l e) =
      m.readAt read k l ++ if m.key e = some k then read e else [] := by
  induction l with
  | nil =>
      rw [place, readAt_cons]
      exact List.append_nil _
  | cons x l ih =>
      have later : m.Alone k l := by
        refine Nat.le_trans ?_ alone
        rw [List.filter_cons]
        split
        · exact Nat.le_succ _
        · exact Nat.le_refl _
      by_cases here : m.Same x e
      · rw [place_same here, readAt_cons, readAt_cons, lawful.key_join, ← here.2, joined]
        by_cases k' : m.key x = some k
        · -- The entry is the only one of its key, so nothing stands behind what is joined to it.
          have nothing : m.readAt read k l = [] := by
            unfold Alone at alone
            rw [List.filter_cons, if_pos (decide_eq_true k'), List.length_cons] at alone
            unfold readAt
            rw [List.length_eq_zero_iff.mp (Nat.le_zero.mp (Nat.le_of_succ_le_succ alone))]
            rfl
          rw [if_pos k', if_pos k', if_pos k', nothing, List.append_nil, List.append_nil]
        · rw [if_neg k', if_neg k', if_neg k', List.append_nil]
      · rw [place_other here, readAt_cons, readAt_cons, ih later, List.append_assoc]

/-- What is read of a key without a second entry is what came for it, in order. -/
theorem readAt_merge : ∀ (ys l : List α), m.Alone k (m.merge l ys) →
    m.readAt read k (m.merge l ys) = m.readAt read k l ++ m.readAt read k ys
  | [], l, _ => (List.append_nil _).symm
  | y :: ys, l, alone => by
      have before : m.Alone k (m.place l y) := Alone.of_merge lawful ys alone
      have later : m.readAt read k (m.merge l (y :: ys)) =
          m.readAt read k (m.place l y) ++ m.readAt read k ys := readAt_merge ys (m.place l y) alone
      rw [later, readAt_place lawful joined (before.of_place lawful), readAt_cons,
        List.append_assoc]

end Reading

end Merging

end Library

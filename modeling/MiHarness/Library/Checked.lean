import Mathlib.Logic.Basic
import Mathlib.Logic.Relation

/-!
# Checked computations

A step of a program that can refuse is a value of `Except`.  A check is `require`, which
refuses unless its condition holds.  To read a successful computation backwards one peels
it apart with `bind_eq_ok` and `require_eq_ok`: every bind gives its intermediate value and
every check gives its condition.  `orThrow` reads an optional value the same way.

A loop over a list is `List.foldlM`.  `foldlM_closed` carries a reflexive and transitive
relation through it, `foldlM_keyed` also what is known of the rows it has not reached, and
`foldlM_each` also what it has done for the rows it has reached.  `foldlM_commits` says when a loop
is not refused.
-/

namespace Library

universe u

variable {ε α β : Type u}

/-- Refuse with `e` unless `c` holds. -/
def require (c : Prop) [Decidable c] (e : ε) : Except ε PUnit :=
  if c then .ok ⟨⟩ else .error e

/-- The value, or the refusal `e` when there is none. -/
def orThrow (o : Option α) (e : ε) : Except ε α :=
  match o with
  | some a => .ok a
  | none => .error e

theorem require_eq_ok {c : Prop} [Decidable c] {e : ε} {x : PUnit} :
    require c e = .ok x ↔ c := by
  unfold require
  split
  · exact iff_of_true rfl ‹c›
  · exact iff_of_false (fun h => by cases h) ‹¬c›

theorem require_eq_error {c : Prop} [Decidable c] {e e' : ε} :
    require c e = .error e' ↔ ¬c ∧ e = e' := by
  unfold require
  split
  · exact iff_of_false (fun h => by cases h) fun h => h.1 ‹c›
  · rw [Except.error.injEq]
    exact (and_iff_right ‹¬c›).symm

theorem require_pos {c : Prop} [Decidable c] (e : ε) (h : c) : require c e = .ok ⟨⟩ := if_pos h

theorem require_neg {c : Prop} [Decidable c] (e : ε) (h : ¬c) : require c e = .error e := if_neg h

theorem orThrow_eq_ok {o : Option α} {e : ε} {a : α} : orThrow o e = .ok a ↔ o = some a := by
  cases o with
  | none => exact iff_of_false (fun h => by cases h) (fun h => by cases h)
  | some b => simp [orThrow]

theorem toOption_eq_some {x : Except ε α} {a : α} : x.toOption = some a ↔ x = .ok a := by
  cases x with
  | error e => exact iff_of_false (fun h => by cases h) (fun h => by cases h)
  | ok b => simp [Except.toOption]

theorem mapError_ok {ε' : Type u} {f : ε → ε'} {a : α} :
    (Except.ok a : Except ε α).mapError f = .ok a := rfl

theorem mapError_eq_ok {ε' : Type u} {x : Except ε α} {f : ε → ε'} {a : α} :
    x.mapError f = .ok a ↔ x = .ok a := by
  cases x with
  | error e => exact iff_of_false (fun h => by cases h) (fun h => by cases h)
  | ok b => rw [mapError_ok, Except.ok.injEq, Except.ok.injEq]

theorem bind_eq_ok {x : Except ε α} {f : α → Except ε β} {b : β} :
    (x >>= f) = .ok b ↔ ∃ a, x = .ok a ∧ f a = .ok b := by
  cases x with
  | error e => exact iff_of_false (fun h => by cases h) fun ⟨_, h, _⟩ => by cases h
  | ok a =>
      constructor
      · exact fun h => ⟨a, rfl, h⟩
      · rintro ⟨_, hx, h⟩
        cases hx
        exact h

theorem pure_eq_ok {a b : α} : (pure a : Except ε α) = .ok b ↔ a = b :=
  ⟨fun h => Except.ok.inj h, fun h => congrArg Except.ok h⟩

@[simp] theorem ok_bind (a : α) (f : α → Except ε β) : (Except.ok a >>= f) = f a := rfl

@[simp] theorem error_bind (e : ε) (f : α → Except ε β) :
    ((Except.error e : Except ε α) >>= f) = .error e := rfl

/-- A loop of checks passes when each of them does. -/
theorem forM_eq_ok {f : α → Except ε PUnit.{u + 1}} : ∀ {l : List α} {r : PUnit},
    l.forM f = .ok r ↔ ∀ a ∈ l, f a = .ok ⟨⟩
  | [], _ => iff_of_true rfl fun _ h => absurd h List.not_mem_nil
  | a :: l, _ => by
      rw [List.forall_mem_cons]
      constructor
      · intro h
        obtain ⟨_, first, later⟩ := bind_eq_ok.mp h
        exact ⟨first, forM_eq_ok.mp later⟩
      · rintro ⟨first, later⟩
        exact bind_eq_ok.mpr ⟨⟨⟩, first, forM_eq_ok.mpr later⟩

/-- What every turn of a loop does, the loop does, for a reflexive and transitive relation. -/
theorem foldlM_closed {R : β → β → Prop} (refl : ∀ s, R s s)
    (trans : ∀ s t u, R s t → R t u → R s u) {f : β → α → Except ε β} :
    ∀ {l : List α} {s s' : β}, l.foldlM f s = .ok s' →
      (∀ a ∈ l, ∀ t t', R s t → f t a = .ok t' → R t t') → R s s'
  | [], s, s', h, _ => by
      rw [List.foldlM_nil] at h
      exact pure_eq_ok.mp h ▸ refl s
  | a :: l, s, s', h, turn => by
      rw [List.foldlM_cons] at h
      obtain ⟨t, first, rest⟩ := bind_eq_ok.mp h
      have start : R s t := turn a (List.mem_cons_self ..) s t (refl s) first
      refine trans s t s' start (foldlM_closed refl trans rest fun b hb v v' hv hf => ?_)
      exact turn b (List.mem_cons_of_mem _ hb) v v' (trans s t v start hv) hf

/-- A loop is what it does before one of its turns, the turn, and what it does after. -/
theorem foldlM_split {f : β → α → Except ε β} {l : List α} {a : α} {s s' : β} (ha : a ∈ l)
    (h : l.foldlM f s = .ok s') : ∃ before after t t', l = before ++ a :: after ∧
      before.foldlM f s = .ok t ∧ f t a = .ok t' ∧ after.foldlM f t' = .ok s' := by
  obtain ⟨before, after, rfl⟩ := List.append_of_mem ha
  rw [List.foldlM_append] at h
  obtain ⟨t, first, h⟩ := bind_eq_ok.mp h
  rw [List.foldlM_cons] at h
  obtain ⟨t', turn, rest⟩ := bind_eq_ok.mp h
  exact ⟨before, after, t, t', rfl, first, turn, rest⟩

/-- A loop over keyed rows with distinct keys.  `P` is what is known of a row before the loop
and what a turn keeps of the rows of other keys, so that it still holds at the turn of the row.
`Q` is what the turn of a row establishes and every later turn keeps. -/
theorem foldlM_each {κ : Type u} {R : β → β → Prop} (refl : ∀ s, R s s)
    (trans : ∀ s t u, R s t → R t u → R s u) {P : β → κ → α → Prop} {Q : β → κ × α → Prop}
    (kept : ∀ s t e, R s t → Q s e → Q t e) {f : β → κ × α → Except ε β} :
    ∀ {l : List (κ × α)} {s s' : β}, (l.map Prod.fst).Nodup → l.foldlM f s = .ok s' →
      (∀ e ∈ l, P s e.1 e.2) →
      (∀ e ∈ l, ∀ t t', R s t → P t e.1 e.2 → f t e = .ok t' →
        R t t' ∧ Q t' e ∧ ∀ e' ∈ l, e'.1 ≠ e.1 → P t e'.1 e'.2 → P t' e'.1 e'.2) →
      R s s' ∧ ∀ e ∈ l, Q s' e
  | [], s, s', _, h, _, _ => by
      rw [List.foldlM_nil] at h
      exact ⟨pure_eq_ok.mp h ▸ refl s, fun _ he => absurd he List.not_mem_nil⟩
  | e :: l, s, s', distinct, h, rows, turn => by
      rw [List.map_cons, List.nodup_cons] at distinct
      rw [List.foldlM_cons] at h
      obtain ⟨t, first, rest⟩ := bind_eq_ok.mp h
      have here := List.mem_cons_self (a := e) (l := l)
      obtain ⟨start, done, others⟩ := turn e here s t (refl s) (rows e here) first
      have later : ∀ e' ∈ l, e'.1 ≠ e.1 := fun e' he' heq =>
        distinct.1 (heq ▸ List.mem_map_of_mem (f := Prod.fst) he')
      obtain ⟨go, each⟩ := foldlM_each (P := P) refl trans kept distinct.2 rest
        (fun e' he' => others e' (List.mem_cons_of_mem e he') (later e' he')
          (rows e' (List.mem_cons_of_mem e he')))
        fun e' he' v v' hv hP hf => by
          obtain ⟨hR, hQ, still⟩ :=
            turn e' (List.mem_cons_of_mem _ he') v v' (trans s t v start hv) hP hf
          exact ⟨hR, hQ, fun e'' he'' => still e'' (List.mem_cons_of_mem _ he'')⟩
      refine ⟨trans s t s' start go, fun e' he' => ?_⟩
      rcases List.mem_cons.mp he' with rfl | he'
      · exact kept t s' _ go done
      · exact each e' he'

theorem foldlM_keyed {κ : Type u} {R : β → β → Prop} (refl : ∀ s, R s s)
    (trans : ∀ s t u, R s t → R t u → R s u) {P : β → κ → α → Prop}
    {f : β → κ × α → Except ε β} {l : List (κ × α)} {s s' : β} (distinct : (l.map Prod.fst).Nodup)
    (h : l.foldlM f s = .ok s') (rows : ∀ e ∈ l, P s e.1 e.2)
    (turn : ∀ e ∈ l, ∀ t t', R s t → P t e.1 e.2 → f t e = .ok t' →
      R t t' ∧ ∀ e' ∈ l, e'.1 ≠ e.1 → P t e'.1 e'.2 → P t' e'.1 e'.2) : R s s' := by
  refine (foldlM_each (P := P) (Q := fun _ _ => True) refl trans (fun _ _ _ _ _ => trivial)
    distinct h rows fun e he t t' hR hP hf => ?_).1
  obtain ⟨hR', still⟩ := turn e he t t' hR hP hf
  exact ⟨hR', trivial, still⟩

/-- A loop over keyed rows with distinct keys is not refused if no turn is, from what is known of
its row. -/
theorem foldlM_commits {κ : Type u} {P : β → κ → α → Prop} {f : β → κ × α → Except ε β} :
    ∀ {l : List (κ × α)} {s : β}, (l.map Prod.fst).Nodup → (∀ e ∈ l, P s e.1 e.2) →
      (∀ e ∈ l, ∀ t, P t e.1 e.2 →
        ∃ t', f t e = .ok t' ∧ ∀ e' ∈ l, e'.1 ≠ e.1 → P t e'.1 e'.2 → P t' e'.1 e'.2) →
      ∃ s', l.foldlM f s = .ok s'
  | [], s, _, _, _ => ⟨s, rfl⟩
  | e :: l, s, distinct, rows, turn => by
      rw [List.map_cons, List.nodup_cons] at distinct
      have here := List.mem_cons_self (a := e) (l := l)
      obtain ⟨t, first, others⟩ := turn e here s (rows e here)
      have later : ∀ e' ∈ l, e'.1 ≠ e.1 := fun e' he' heq =>
        distinct.1 (heq ▸ List.mem_map_of_mem (f := Prod.fst) he')
      obtain ⟨s', rest⟩ := foldlM_commits (P := P) distinct.2
        (fun e' he' => others e' (List.mem_cons_of_mem e he') (later e' he')
          (rows e' (List.mem_cons_of_mem e he')))
        fun e' he' u hP => by
          obtain ⟨u', goes, still⟩ := turn e' (List.mem_cons_of_mem e he') u hP
          exact ⟨u', goes, fun e'' he'' => still e'' (List.mem_cons_of_mem e he'')⟩
      exact ⟨s', by rw [List.foldlM_cons, first, ok_bind, rest]⟩

end Library

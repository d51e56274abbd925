import Mathlib.Logic.Basic

/-!
# Computations that fail with their effects

A step of `EStateM` that raises keeps what it has done to the state.  `wp x Q E s` says that `x`, from
`s`, returns with `Q` or raises with `E`, and has a rule for each way a computation is built, so that a
postcondition is read back through it to a condition on the state before.
-/

namespace Library

variable {ε σ α β : Type}

/-- `x` returns from `s` with `Q`, or raises with `E`. -/
def wp (x : EStateM ε σ α) (Q : α → σ → Prop) (E : ε → σ → Prop) (s : σ) : Prop :=
  match x s with
  | .ok a t => Q a t
  | .error e t => E e t

variable {x : EStateM ε σ α} {Q : α → σ → Prop} {E : ε → σ → Prop} {s t : σ}

theorem wp_pure (a : α) : wp (pure a : EStateM ε σ α) Q E s ↔ Q a s := Iff.rfl

theorem wp_throw (e : ε) : wp (throw e : EStateM ε σ α) Q E s ↔ E e s := Iff.rfl

theorem wp_get {Q : σ → σ → Prop} : wp (get : EStateM ε σ σ) Q E s ↔ Q s s := Iff.rfl

theorem wp_modify {Q : Unit → σ → Prop} (f : σ → σ) :
    wp (modify f : EStateM ε σ Unit) Q E s ↔ Q ⟨⟩ (f s) := Iff.rfl

theorem wp_bind {Q : β → σ → Prop} (f : α → EStateM ε σ β) :
    wp (x >>= f) Q E s ↔ wp x (fun a t => wp (f a) Q E t) E s := by
  show (match EStateM.bind x f s with | .ok a t => Q a t | .error e t => E e t) ↔ _
  unfold EStateM.bind wp
  cases x s with
  | ok a t => exact Iff.rfl
  | error e t => exact Iff.rfl

/-- What is done at last is done after a return and after an error, and an error of its own takes the
place of both. -/
theorem wp_finally {last : EStateM ε σ Unit} : wp (tryFinally x last) Q E s ↔
    wp x (fun a t => wp last (fun _ u => Q a u) E t)
      (fun e t => wp last (fun _ u => E e u) E t) s := by
  unfold wp
  rw [show tryFinally x last s = (Prod.fst <$> tryFinally' x fun _ => last) s from rfl]
  cases h : x s with
  | ok a t => cases h' : last t <;> simp [tryFinally', Functor.map, EStateM.map, h, h']
  | error e t => cases h' : last t <;> simp [tryFinally', Functor.map, EStateM.map, h, h']

theorem wp.mono {Q' : α → σ → Prop} {E' : ε → σ → Prop} (h : wp x Q E s)
    (returns : ∀ a t, Q a t → Q' a t) (raises : ∀ e t, E e t → E' e t) : wp x Q' E' s := by
  unfold wp at h ⊢
  cases hx : x s with
  | ok a t =>
      rw [hx] at h
      exact returns a t h
  | error e t =>
      rw [hx] at h
      exact raises e t h

theorem wp.and {Q' : α → σ → Prop} {E' : ε → σ → Prop} (h : wp x Q E s) (h' : wp x Q' E' s) :
    wp x (fun a t => Q a t ∧ Q' a t) (fun e t => E e t ∧ E' e t) s := by
  unfold wp at h h' ⊢
  cases hx : x s with
  | ok a t =>
      rw [hx] at h h'
      exact ⟨h, h'⟩
  | error e t =>
      rw [hx] at h h'
      exact ⟨h, h'⟩

theorem wp_tryCatch {handle : ε → EStateM ε σ α} : wp (tryCatch x handle) Q E s ↔
    wp x Q (fun e t => wp (handle e) Q E t) s := by
  unfold wp
  rw [show tryCatch x handle s = EStateM.tryCatch x handle s from rfl]
  delta EStateM.tryCatch
  cases x s with
  | ok a t => exact Iff.rfl
  | error e t => exact Iff.rfl

theorem wp.of_ok {a : α} (h : wp x Q E s) (returned : x s = .ok a t) : Q a t := by
  unfold wp at h
  rwa [returned] at h

theorem wp.of_error {e : ε} (h : wp x Q E s) (raised : x s = .error e t) : E e t := by
  unfold wp at h
  rwa [raised] at h

/-- A computation that cannot raise returns. -/
theorem wp.returned (h : wp x Q (fun _ _ => False) s) : ∃ a t, x s = .ok a t ∧ Q a t := by
  unfold wp at h
  cases hx : x s with
  | ok a t =>
      rw [hx] at h
      exact ⟨a, t, rfl, h⟩
  | error e t =>
      rw [hx] at h
      exact h.elim

/-! ## Calls that raise, and checks -/

/-- A call that raises, or does nothing. -/
def raise (o : Option ε) : EStateM ε σ Unit :=
  match o with
  | some e => throw e
  | none => pure ()

/-- A value, or what a call raises. -/
def raising (x : Except ε α) : EStateM ε σ α :=
  match x with
  | .ok a => pure a
  | .error e => throw e

/-- Raise unless the condition holds. -/
def ensure (c : Prop) [Decidable c] (e : ε) : EStateM ε σ Unit :=
  if c then pure () else throw e

theorem wp_raise {o : Option ε} {Q : Unit → σ → Prop} (raised : ∀ e, o = some e → E e s)
    (passes : o = none → Q () s) : wp (raise o) Q E s := by
  cases o with
  | none => exact passes rfl
  | some e => exact raised e rfl

theorem wp_raise_bind {o : Option ε} {f : Unit → EStateM ε σ α}
    (raised : ∀ e, o = some e → E e s) (passes : o = none → wp (f ()) Q E s) :
    wp (raise o >>= f) Q E s := by
  rw [wp_bind]
  exact wp_raise raised passes

theorem wp_raising {y : Except ε α} (raised : ∀ e, y = .error e → E e s)
    (returns : ∀ a, y = .ok a → Q a s) : wp (raising y) Q E s := by
  cases y with
  | ok a => exact returns a rfl
  | error e => exact raised e rfl

theorem wp_raising_bind {y : Except ε β} {f : β → EStateM ε σ α} (raised : ∀ e, y = .error e → E e s)
    (returns : ∀ b, y = .ok b → wp (f b) Q E s) : wp (raising y >>= f) Q E s := by
  rw [wp_bind]
  exact wp_raising raised returns

theorem wp_ensure {c : Prop} [Decidable c] {e : ε} {Q : Unit → σ → Prop} (refused : ¬c → E e s)
    (passes : c → Q () s) : wp (ensure c e) Q E s := by
  rw [ensure]
  split
  · exact passes ‹c›
  · exact refused ‹¬c›

theorem wp_ensure_bind {c : Prop} [Decidable c] {e : ε} {f : Unit → EStateM ε σ α}
    (refused : ¬c → E e s) (passes : c → wp (f ()) Q E s) : wp (ensure c e >>= f) Q E s := by
  rw [wp_bind]
  exact wp_ensure refused passes

/-! ## A part of the state -/

/-- A computation on a part of the state. -/
def zoom {τ : Type} (part : σ → τ) (put : τ → σ → σ) (x : EStateM ε τ α) : EStateM ε σ α := fun s =>
  match x (part s) with
  | .ok a t => .ok a (put t s)
  | .error e t => .error e (put t s)

theorem wp_zoom {τ : Type} {part : σ → τ} {put : τ → σ → σ} {x : EStateM ε τ α} :
    wp (zoom part put x) Q E s ↔
      wp x (fun a t => Q a (put t s)) (fun e t => E e (put t s)) (part s) := by
  unfold wp zoom
  cases x (part s) with
  | ok a t => exact Iff.rfl
  | error e t => exact Iff.rfl

/-! ## What a computation can raise -/

/-- `x` raises only errors of `P`. -/
def Raises (P : ε → Prop) (x : EStateM ε σ α) : Prop :=
  ∀ s, wp x (fun _ _ => True) (fun e _ => P e) s

namespace Raises

variable {P : ε → Prop}

theorem pure (a : α) : Raises P (pure a : EStateM ε σ α) := fun _ => trivial

theorem get : Raises P (get : EStateM ε σ σ) := fun _ => trivial

theorem modify (f : σ → σ) : Raises P (modify f : EStateM ε σ PUnit) := fun _ => trivial

theorem bind {f : α → EStateM ε σ β} (first : Raises P x) (later : ∀ a, Raises P (f a)) :
    Raises P (x >>= f) := by
  intro s
  rw [wp_bind]
  exact (first s).mono (fun a t _ => later a t) fun _ _ raised => raised

theorem finally' {last : EStateM ε σ Unit} (first : Raises P x) (later : Raises P last) :
    Raises P (tryFinally x last) := by
  intro s
  rw [wp_finally]
  refine (first s).mono (fun a t _ => later t) fun e t raised => ?_
  exact (later t).mono (fun _ _ _ => raised) fun _ _ raised => raised

theorem ite {c : Prop} [Decidable c] {y : EStateM ε σ α} (first : Raises P x) (second : Raises P y) :
    Raises P (if c then x else y) := by
  split
  · exact first
  · exact second

end Raises

/-! ## What a computation does to the state -/

/-- Whether it returns or raises, `x` leaves a state that is related to the one it found. -/
def Moves (R : σ → σ → Prop) (x : EStateM ε σ α) : Prop :=
  ∀ s, wp x (fun _ t => R s t) (fun _ t => R s t) s

namespace Moves

variable {R : σ → σ → Prop}

theorem modify {f : σ → σ} (related : ∀ s, R s (f s)) :
    Moves R (modify f : EStateM ε σ PUnit) := related

section Preorder

variable (refl : ∀ s, R s s) (trans : ∀ {s t u}, R s t → R t u → R s u)

include refl in
theorem pure (a : α) : Moves R (pure a : EStateM ε σ α) := refl

include refl in
theorem get : Moves R (get : EStateM ε σ σ) := refl

include refl in
theorem throw (e : ε) : Moves R (throw e : EStateM ε σ α) := refl

include refl in
theorem raise (o : Option ε) : Moves R (raise o : EStateM ε σ Unit) := by
  intro s
  exact wp_raise (fun _ _ => refl s) fun _ => refl s

include refl in
theorem raising (y : Except ε α) : Moves R (raising y : EStateM ε σ α) := by
  intro s
  exact wp_raising (fun _ _ => refl s) fun _ _ => refl s

include refl in
theorem ensure (c : Prop) [Decidable c] (e : ε) : Moves R (ensure c e : EStateM ε σ Unit) := by
  intro s
  exact wp_ensure (fun _ => refl s) fun _ => refl s

include trans in
theorem bind {f : α → EStateM ε σ β} (first : Moves R x) (later : ∀ a, Moves R (f a)) :
    Moves R (x >>= f) := by
  intro s
  rw [wp_bind]
  refine (first s).mono (fun a t moved => ?_) fun _ _ moved => moved
  exact (later a t).mono (fun _ _ h => trans moved h) fun _ _ h => trans moved h

end Preorder

theorem ite {c : Prop} [Decidable c] {y : EStateM ε σ α} (first : Moves R x) (second : Moves R y) :
    Moves R (if c then x else y) := by
  split
  · exact first
  · exact second

end Moves

end Library

import Mathlib.Data.List.Induction

/-! Rules for computations in `Except`: what holds of their outcome, and for folds over a list, what
a successful run went through, what it preserves, and where a failing one stopped. -/

namespace Pyrrha.Lib

variable {ε α β : Type}

theorem bind_ok {x : Except ε α} {f : α → Except ε β} {b : β} (h : x >>= f = .ok b) :
    ∃ a, x = .ok a ∧ f a = .ok b := by
  cases x with
  | error e => cases h
  | ok a => exact ⟨a, rfl, h⟩

theorem bind_error {x : Except ε α} {f : α → Except ε β} {e : ε} (h : x >>= f = .error e) :
    x = .error e ∨ ∃ a, x = .ok a ∧ f a = .error e := by
  cases x with
  | error e' =>
    cases h
    exact .inl rfl
  | ok a => exact .inr ⟨a, rfl, h⟩

theorem toOption_eq_some {x : Except ε α} {a : α} : x.toOption = some a ↔ x = .ok a := by
  cases x <;> simp [Except.toOption]

/-- Invariant rule of a fold, for an invariant that also sees what is still to come. -/
theorem foldlM_rest {f : β → α → Except ε β} {I : List α → β → Prop}
    (step : ∀ a rest b b', I (a :: rest) b → f b a = .ok b' → I rest b') {l : List α} {b b' : β}
    (start : I l b) (h : l.foldlM f b = .ok b') : I [] b' := by
  induction l generalizing b with
  | nil =>
    cases h
    exact start
  | cons a rest ih =>
    rw [List.foldlM_cons] at h
    obtain ⟨x, first, h⟩ := bind_ok h
    exact ih (step a rest b x start first) h

/-- Invariant rule of a fold. -/
theorem foldlM_preserves {f : β → α → Except ε β} {I : β → Prop} {l : List α}
    (step : ∀ a ∈ l, ∀ b b', I b → f b a = .ok b' → I b') {b b' : β} (start : I b)
    (h : l.foldlM f b = .ok b') : I b' := by
  refine (foldlM_rest (I := fun rest b => rest ⊆ l ∧ I b) ?_ ⟨List.Subset.refl l, start⟩ h).2
  rintro a rest b b' ⟨sub, before⟩ call
  exact ⟨fun x hx => sub (List.mem_cons_of_mem a hx),
    step a (sub List.mem_cons_self) b b' before call⟩

/-- A fold relates where it starts and where it ends, if each of its steps does. -/
theorem foldlM_related {f : β → α → Except ε β} {R : β → β → Prop} (refl : ∀ b, R b b)
    (trans : ∀ a b c, R a b → R b c → R a c) {l : List α} {b b' : β}
    (step : ∀ before a after, l = before ++ a :: after → ∀ x y, before.foldlM f b = .ok x →
      f x a = .ok y → R x y)
    (h : l.foldlM f b = .ok b') : R b b' := by
  induction l using List.reverseRecOn generalizing b' with
  | nil =>
    cases h
    exact refl b
  | append_singleton l a ih =>
    rw [List.foldlM_append] at h
    obtain ⟨x, start, h⟩ := bind_ok h
    rw [List.foldlM_cons] at h
    obtain ⟨y, last, h⟩ := bind_ok h
    cases h
    refine trans b x _ (ih (fun before c after split => ?_) start) (step l a [] rfl x _ start last)
    exact step before c (after ++ [a]) (by rw [split, List.append_assoc, List.cons_append])

/-- A failing fold fails in one of its steps, at a value the invariant holds of. -/
theorem foldlM_error {f : β → α → Except ε β} {I : β → Prop} {l : List α}
    (step : ∀ a ∈ l, ∀ b b', I b → f b a = .ok b' → I b') {b : β} {e : ε} (start : I b)
    (h : l.foldlM f b = .error e) : ∃ a ∈ l, ∃ b, I b ∧ f b a = .error e := by
  induction l generalizing b with
  | nil => cases h
  | cons a rest ih =>
    rw [List.foldlM_cons] at h
    rcases bind_error h with failed | ⟨x, first, failed⟩
    · exact ⟨a, List.mem_cons_self, b, start, failed⟩
    · have later := ih (fun c hc => step c (List.mem_cons_of_mem a hc))
        (step a List.mem_cons_self b x start first) failed
      obtain ⟨c, hc, at_c⟩ := later
      exact ⟨c, List.mem_cons_of_mem a hc, at_c⟩

/-! ### Outcomes -/

variable {P P' : α → Prop} {Q : β → Prop} {E E' : ε → Prop} {x : Except ε α}

/-- What holds of the result of a computation, or of the error that stopped it. -/
def Outcome (P : α → Prop) (E : ε → Prop) : Except ε α → Prop
  | .ok a => P a
  | .error e => E e

theorem outcome_result {a : α} (h : Outcome P E x) (ends : x = .ok a) : P a := by
  subst ends
  exact h

theorem outcome_stop {e : ε} (h : Outcome P E x) (fails : x = .error e) : E e := by
  subst fails
  exact h

theorem outcome_of (result : ∀ a, x = .ok a → P a) (stop : ∀ e, x = .error e → E e) :
    Outcome P E x := by
  cases x with
  | ok a => exact result a rfl
  | error e => exact stop e rfl

theorem outcome_mono (h : Outcome P E x) (result : ∀ a, P a → P' a) (stop : ∀ e, E e → E' e) :
    Outcome P' E' x := by
  cases x with
  | ok a => exact result a h
  | error e => exact stop e h

theorem outcome_weaken (h : Outcome P E x) (result : ∀ a, P a → P' a) : Outcome P' E x :=
  outcome_mono h result fun _ stop => stop

theorem outcome_and (h : Outcome P E x) (h' : Outcome P' E x) :
    Outcome (fun a => P a ∧ P' a) E x := by
  cases x with
  | ok a => exact ⟨h, h'⟩
  | error e => exact h

/-- The same when only the first says which errors there are. -/
theorem outcome_also (h : Outcome P E x) (h' : Outcome P' E' x) :
    Outcome (fun a => P a ∧ P' a) E x := by
  cases x with
  | ok a => exact ⟨h, h'⟩
  | error e => exact h

/-- The result is the one the computation has ended with. -/
theorem outcome_call (h : Outcome P E x) : Outcome (fun a => x = .ok a ∧ P a) E x := by
  cases x with
  | ok a => exact ⟨rfl, h⟩
  | error e => exact h

theorem outcome_map {f : α → β} (h : Outcome (fun a => Q (f a)) E x) : Outcome Q E (x.map f) := by
  cases x with
  | ok a => exact h
  | error e => exact h

theorem outcome_mapError {ε' : Type} {f : ε → ε'} {F : ε' → Prop}
    (h : Outcome P (fun e => F (f e)) x) : Outcome P F (x.mapError f) := by
  cases x with
  | ok a => exact h
  | error e => exact h

theorem outcome_bind {f : α → Except ε β} (h : Outcome P E x)
    (next : ∀ a, P a → Outcome Q E (f a)) : Outcome Q E (x >>= f) := by
  cases x with
  | ok a => exact next a h
  | error e => exact h

/-- Invariant rule of a fold, failures included. -/
theorem outcome_foldlM {f : β → α → Except ε β} {I : β → Prop} {l : List α}
    (step : ∀ a ∈ l, ∀ b, I b → Outcome I E (f b a)) {b : β} (start : I b) :
    Outcome I E (l.foldlM f b) := by
  induction l generalizing b with
  | nil => exact start
  | cons a rest ih =>
    rw [List.foldlM_cons]
    refine outcome_bind (step a List.mem_cons_self b start) fun x after => ?_
    exact ih (fun c member => step c (List.mem_cons_of_mem a member)) after

end Pyrrha.Lib

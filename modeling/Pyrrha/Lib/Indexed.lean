import Mathlib.Data.List.Basic
import Mathlib.Data.Nat.Notation
import Pyrrha.Lib.Checked

/-!
Vectors whose accesses are checked: reading and changing a list at an index, with an error outside
it; and the first element of a list that a checked test accepts.
-/

namespace Pyrrha.Lib

variable {ε α : Type}

/-- The element at `i`, or `out` when there is none. -/
def readAt (out : ε) (l : List α) (i : ℕ) : Except ε α := (l[i]?).elim (.error out) .ok

/-- The list with `f` applied to its element at `i`, or `out` when there is none. -/
def modifyAt (out : ε) (l : List α) (i : ℕ) (f : α → α) : Except ε (List α) :=
  if i < l.length then .ok (l.modify i f) else .error out

/-- The first element that the test accepts, with its position counted from `k`. -/
def firstFrom (test : α → Except ε Bool) : ℕ → List α → Except ε (Option (ℕ × α))
  | _, [] => .ok none
  | k, a :: rest => do if ← test a then .ok (some (k, a)) else firstFrom test (k + 1) rest

/-! ### Accesses -/

variable {out : ε} {l : List α} {i k : ℕ} {a : α}

theorem readAt_inside (h : i < l.length) : readAt out l i = .ok l[i] := by
  simp [readAt, List.getElem?_eq_getElem h]

theorem readAt_outside (h : l.length ≤ i) : readAt out l i = .error out := by
  simp [readAt, List.getElem?_eq_none h]

theorem readAt_ok (h : readAt out l i = .ok a) : l[i]? = some a := by
  unfold readAt at h
  cases found : l[i]? with
  | none =>
    rw [found] at h
    cases h
  | some b =>
    rw [found] at h
    cases h
    rfl

theorem modifyAt_inside (h : i < l.length) (f : α → α) : modifyAt out l i f = .ok (l.modify i f) :=
  if_pos h

theorem modifyAt_outside (h : l.length ≤ i) (f : α → α) : modifyAt out l i f = .error out :=
  if_neg (Nat.not_lt.mpr h)

theorem outcome_readAt {E : ε → Prop} (h : i < l.length) :
    Outcome (fun a => l[i]? = some a) E (readAt out l i) := by
  rw [readAt_inside h]
  exact List.getElem?_eq_getElem h

theorem outcome_modifyAt {E : ε → Prop} (h : i < l.length) (f : α → α) :
    Outcome (fun m => m.length = l.length) E (modifyAt out l i f) := by
  rw [modifyAt_inside h]
  exact List.length_modify ..

theorem mem_modify {f : α → α} {b : α} (h : b ∈ l.modify i f) : b ∈ l ∨ ∃ a ∈ l, b = f a := by
  obtain ⟨k, bound, rfl⟩ := List.mem_iff_getElem.mp h
  rw [List.length_modify] at bound
  rw [List.getElem_modify]
  split
  · exact .inr ⟨l[k], List.getElem_mem bound, rfl⟩
  · exact .inl (List.getElem_mem bound)

/-! ### Searches -/

variable {test : α → Except ε Bool}

theorem firstFrom_cons {rest : List α} :
    firstFrom test k (a :: rest) =
      test a >>= fun accepted => if accepted then .ok (some (k, a))
        else firstFrom test (k + 1) rest := rfl

/-- A search with nothing to accept in the front of the list goes on behind it. -/
theorem firstFrom_skip {front rest : List α} (skipped : ∀ a ∈ front, test a = .ok false) :
    firstFrom test k (front ++ rest) = firstFrom test (k + front.length) rest := by
  induction front generalizing k with
  | nil => rfl
  | cons a front ih =>
    have head : test a = .ok false := skipped a List.mem_cons_self
    have next := ih (k := k + 1) fun b member => skipped b (List.mem_cons_of_mem a member)
    rw [List.cons_append, firstFrom_cons, head, List.length_cons]
    show firstFrom test (k + 1) (front ++ rest) = _
    rw [next, Nat.add_assoc, Nat.add_comm 1]

/-- A search ends without an element when there is nothing to accept. -/
theorem firstFrom_eq_none : firstFrom test k l = .ok none ↔ ∀ a ∈ l, test a = .ok false := by
  constructor
  · intro h
    induction l generalizing k with
    | nil => nofun
    | cons b rest ih =>
      rw [firstFrom_cons] at h
      obtain ⟨accepted, tested, h⟩ := bind_ok h
      cases accepted with
      | true => cases h
      | false =>
        intro a member
        rcases List.mem_cons.mp member with rfl | later
        · exact tested
        · exact ih h a later
  · intro skipped
    have all : firstFrom test k (l ++ []) = firstFrom test (k + l.length) [] :=
      firstFrom_skip skipped
    rwa [List.append_nil] at all

/-- What a search returns is the first element that the test accepts. -/
theorem firstFrom_eq_some :
    firstFrom test k l = .ok (some (i, a)) ↔
      ∃ before after, l = before ++ a :: after ∧ i = k + before.length ∧
      (∀ b ∈ before, test b = .ok false) ∧ test a = .ok true := by
  constructor
  · intro h
    induction l generalizing k with
    | nil => cases h
    | cons b rest ih =>
      rw [firstFrom_cons] at h
      obtain ⟨accepted, tested, h⟩ := bind_ok h
      cases accepted with
      | true =>
        cases h
        exact ⟨[], rest, rfl, rfl, nofun, tested⟩
      | false =>
        obtain ⟨before, after, rfl, rfl, skipped, taken⟩ := ih h
        refine ⟨b :: before, after, rfl, ?_, ?_, taken⟩
        · rw [List.length_cons]
          omega
        · intro c member
          rcases List.mem_cons.mp member with rfl | later
          · exact tested
          · exact skipped c later
  · rintro ⟨before, after, rfl, rfl, skipped, taken⟩
    rw [firstFrom_skip skipped, firstFrom_cons, taken]
    rfl

theorem outcome_firstFrom {E : ε → Prop} (tests : ∀ a ∈ l, Outcome (fun _ => True) E (test a)) :
    Outcome (fun _ => True) E (firstFrom test k l) := by
  induction l generalizing k with
  | nil => trivial
  | cons b rest ih =>
    rw [firstFrom_cons]
    refine outcome_bind (tests b List.mem_cons_self) fun accepted _ => ?_
    cases accepted with
    | true => trivial
    | false => exact ih fun a later => tests a (List.mem_cons_of_mem b later)

end Pyrrha.Lib

import Mathlib.Algebra.BigOperators.Group.List.Basic
import Mathlib.Algebra.Order.BigOperators.Group.List
import Mathlib.Algebra.Order.Group.Nat
import Mathlib.Algebra.Order.Ring.Nat

/-! The total weight of the elements of a list that pass a test, and its change when an element
comes, goes or is replaced. -/

namespace Pyrrha.Lib

variable {α : Type} {w : α → ℕ} {p q : α → Bool} {l : List α}

/-- The total weight of the elements of `l` that pass `p`. -/
def tally (w : α → ℕ) (p : α → Bool) (l : List α) : ℕ := ((l.filter p).map w).sum

@[simp] theorem tally_nil : tally w p [] = 0 := rfl

theorem tally_cons (x : α) : tally w p (x :: l) = (if p x then w x else 0) + tally w p l := by
  cases h : p x <;> simp [tally, h]

theorem tally_append (l m : List α) : tally w p (l ++ m) = tally w p l + tally w p m := by
  simp [tally]

theorem tally_concat (l : List α) (x : α) : tally w p (l ++ [x]) = tally w p l + if p x then w x
    else 0 := by
  rw [tally_append, tally_cons, tally_nil, Nat.add_zero]

/-- What an element weighs is gone once it is removed. -/
theorem tally_eraseIdx {k : ℕ} {x : α} (h : l[k]? = some x) :
    tally w p (l.eraseIdx k) + (if p x then w x else 0) = tally w p l := by
  induction l generalizing k with
  | nil => cases h
  | cons y rest ih =>
    cases k with
    | zero =>
      cases h
      rw [List.eraseIdx_zero, List.tail_cons, tally_cons, Nat.add_comm]
    | succ k =>
      have removed := ih (List.getElem?_cons_succ.symm.trans h)
      rw [List.eraseIdx_cons_succ, tally_cons, tally_cons]
      omega

/-- An element takes the place of another one. -/
theorem tally_set {k : ℕ} {x y : α} (h : l[k]? = some x) :
    tally w p (l.set k y) + (if p x then w x else 0) = tally w p l + if p y then w y else 0 := by
  induction l generalizing k with
  | nil => cases h
  | cons z rest ih =>
    cases k with
    | zero =>
      cases h
      rw [List.set_cons_zero, tally_cons, tally_cons]
      omega
    | succ k =>
      have replaced := ih (List.getElem?_cons_succ.symm.trans h)
      rw [List.set_cons_succ, tally_cons, tally_cons]
      omega

theorem tally_le_tally {v : α → ℕ} (h : ∀ x ∈ l, p x = true → q x = true ∧ v x ≤ w x) :
    tally v p l ≤ tally w q l := by
  induction l with
  | nil => exact le_refl _
  | cons x rest ih =>
    have below := ih fun y hy => h y (List.mem_cons_of_mem x hy)
    have here := h x List.mem_cons_self
    rw [tally_cons, tally_cons]
    by_cases passes : p x = true
    · obtain ⟨also, light⟩ := here passes
      rw [if_pos passes, if_pos also]
      omega
    · rw [if_neg passes]
      omega

theorem tally_mono (h : ∀ x ∈ l, p x → q x) : tally w p l ≤ tally w q l :=
  tally_le_tally fun x member passes => ⟨h x member passes, le_refl _⟩

theorem tally_congr (h : ∀ x ∈ l, p x = q x) : tally w p l = tally w q l := by
  rw [tally, tally, List.filter_congr h]

theorem tally_zero (h : ∀ x ∈ l, p x = false) : tally w p l = 0 := by
  rw [tally, List.filter_eq_nil_iff.mpr fun x hx => by simp [h x hx]]
  rfl

theorem le_tally {x : α} (member : x ∈ l) (passes : p x = true) : w x ≤ tally w p l :=
  List.single_le_sum (fun _ _ => Nat.zero_le _) _
    (List.mem_map_of_mem (List.mem_filter.mpr ⟨member, passes⟩))

/-- The elements that pass `p` are those that also pass `q` and those that do not. -/
theorem tally_split (q : α → Bool) :
    tally w p l = tally w (fun x => p x && q x) l + tally w (fun x => p x && !q x) l := by
  induction l with
  | nil => rfl
  | cons x rest ih =>
    rw [tally_cons, tally_cons, tally_cons, ih]
    cases p x <;> cases q x <;> simp <;> omega

theorem tally_filter : tally w p (l.filter q) = tally w (fun x => p x && q x) l := by
  rw [tally, tally, List.filter_filter]

/-- Taking out the elements that pass `q` leaves the tally of the others. -/
theorem tally_filter_not : tally w p (l.filter fun x => !q x) + tally w (fun x => p x && q x) l =
    tally w p l := by
  rw [tally_filter, tally_split (p := p) q, Nat.add_comm]

/-- The tallies of the elements with each of a list of keys add up to the tally of those with one of
them. -/
theorem tally_sum_keys {κ : Type} [DecidableEq κ] (key : α → κ) {ks : List κ} (nodup : ks.Nodup) :
    (ks.map fun k => tally w (fun x => p x && decide (key x = k)) l).sum =
      tally w (fun x => p x && decide (key x ∈ ks)) l := by
  induction ks with
  | nil => simp [tally]
  | cons k rest ih =>
    obtain ⟨fresh, nodup⟩ := List.nodup_cons.mp nodup
    rw [List.map_cons, List.sum_cons, ih nodup,
      tally_split (p := fun x => p x && decide (key x ∈ k :: rest)) fun x => decide (key x = k)]
    congr 1 <;> refine tally_congr fun x _ => ?_
    · by_cases here : key x = k <;> simp [here]
    · by_cases here : key x = k
      · simp [here, fresh]
      · simp [here]

end Pyrrha.Lib

import Mathlib.Algebra.BigOperators.Group.Finset.Basic
import Mathlib.Algebra.Order.BigOperators.Group.Finset
import Pyrrha.Lib.Tally

/-! Elements kept on finitely many shelves, each in a list of its own, and the total weight of those
that pass a test. -/

namespace Pyrrha.Lib

open Finset

variable {α κ : Type} {keys : Finset κ} {w : α → ℕ} {p : α → Bool} {f g : κ → List α}

/-- The total weight of the elements on the shelves `keys` that pass `p`. -/
def shelfTally (keys : Finset κ) (w : α → ℕ) (p : α → Bool) (f : κ → List α) : ℕ :=
  ∑ k ∈ keys, tally w p (f k)

theorem shelfTally_change [DecidableEq κ] {k : κ} (member : k ∈ keys)
    (others : ∀ j, j ≠ k → g j = f j) :
    shelfTally keys w p g + tally w p (f k) = shelfTally keys w p f + tally w p (g k) := by
  have same : ∑ j ∈ keys.erase k, tally w p (g j) = ∑ j ∈ keys.erase k, tally w p (f j) :=
    sum_congr rfl fun j hj => by rw [others j (ne_of_mem_erase hj)]
  rw [shelfTally, shelfTally, ← add_sum_erase keys _ member,
    ← add_sum_erase keys (fun j => tally w p (f j)) member, same]
  omega

/-- An element is put on a shelf. -/
theorem shelfTally_push [DecidableEq κ] {k : κ} {a : α} (member : k ∈ keys) (put : g k = f k ++ [a])
    (others : ∀ j, j ≠ k → g j = f j) :
    shelfTally keys w p g = shelfTally keys w p f + if p a then w a else 0 := by
  have change := shelfTally_change (w := w) (p := p) member others
  rw [put, tally_concat] at change
  omega

/-- The first element of a shelf is taken. -/
theorem shelfTally_pop [DecidableEq κ] {k : κ} {a : α} (member : k ∈ keys) (taken : f k = a :: g k)
    (others : ∀ j, j ≠ k → g j = f j) :
    shelfTally keys w p g + (if p a then w a else 0) = shelfTally keys w p f := by
  have change := shelfTally_change (w := w) (p := p) member others
  rw [taken, tally_cons] at change
  omega

/-- All elements that pass are on one shelf. -/
theorem shelfTally_single {k : κ} (member : k ∈ keys) (only : ∀ j, j ≠ k → ∀ a ∈ f j, p a = false) :
    shelfTally keys w p f = tally w p (f k) :=
  sum_eq_single_of_mem k member fun j _ other => tally_zero (only j other)

theorem shelfTally_zero (none : ∀ k ∈ keys, ∀ a ∈ f k, p a = false) : shelfTally keys w p f = 0 :=
  sum_eq_zero fun k member => tally_zero (none k member)

theorem le_shelfTally {k : κ} {a : α} (shelf : k ∈ keys) (member : a ∈ f k) (passes : p a = true) :
    w a ≤ shelfTally keys w p f :=
  (le_tally member passes).trans
    (single_le_sum (f := fun j => tally w p (f j)) (fun _ _ => Nat.zero_le _) shelf)

/-- The elements of each class add up to all of them. -/
theorem sum_shelfTally (classes : ℕ) (key : α → ℕ)
    (below : ∀ k ∈ keys, ∀ a ∈ f k, key a < classes) :
    ∑ c ∈ range classes, shelfTally keys w (fun a => decide (key a = c)) f =
      shelfTally keys w (fun _ => true) f := by
  unfold shelfTally
  rw [sum_comm]
  refine sum_congr rfl fun k shelf => ?_
  have total : ∑ c ∈ range classes, tally w (fun a => decide (key a = c)) (f k) =
      ((List.range classes).map fun c => tally w (fun a => decide (key a = c)) (f k)).sum := rfl
  have parts := tally_sum_keys (w := w) (p := fun _ => true) (l := f k) key
    (List.nodup_range (n := classes))
  simp only [Bool.true_and] at parts
  rw [total, parts]
  exact tally_congr fun a member => by simp [below k shelf a member]

end Pyrrha.Lib

import Mathlib.Algebra.BigOperators.Fin
import Mathlib.Algebra.Order.BigOperators.Group.Finset
import Pyrrha.Lib.Tally
import Pyrrha.Lib.Update

/-! Sums over the entries of a table with finitely many rows and the columns below a bound. -/

namespace Pyrrha.Lib

open Finset

variable {ι : Type} [Fintype ι] {N : ℕ}

/-- The sum of the entries of `f` in the columns below `N`. -/
def gridSum (N : ℕ) (f : ι → ℕ → ℕ) : ℕ := ∑ i, ∑ j ∈ range N, f i j

/-- One entry is replaced, and the sum moves with it. -/
theorem gridSum_update [DecidableEq ι] (g : ℕ → ℕ) (f : ι → ℕ → ℕ) (a : ι) {b : ℕ}
    (inside : b < N) (v : ℕ) : gridSum N (fun i j => g (update₂ f a b v i j)) + g (f a b) =
      gridSum N (fun i j => g (f i j)) + g v := by
  have member : (a, b) ∈ (univ : Finset ι) ×ˢ range N := by simp [inside]
  have others : ∑ x ∈ (univ ×ˢ range N).erase (a, b), g (update₂ f a b v x.1 x.2) =
      ∑ x ∈ (univ ×ˢ range N).erase (a, b), g (f x.1 x.2) := by
    refine sum_congr rfl fun x hx => ?_
    rw [update₂_of_ne]
    rintro ⟨rfl, rfl⟩
    exact (mem_erase.mp hx).1 rfl
  unfold gridSum
  rw [← sum_product' univ (range N) fun i j => g (update₂ f a b v i j),
    ← sum_product' univ (range N) fun i j => g (f i j), ← add_sum_erase _ _ member,
      ← add_sum_erase _ _ member, others]
  simp only [update₂_same]
  omega

omit [Fintype ι] in
/-- The same for a table of one argument. -/
theorem sum_update [DecidableEq ι] {β : Type*} (g : β → ℕ) (f : ι → β) {a : ι} {keys : Finset ι}
    (inside : a ∈ keys) (v : β) :
    (∑ i ∈ keys, g (Function.update f a v i)) + g (f a) = (∑ i ∈ keys, g (f i)) + g v := by
  have others : ∑ i ∈ keys.erase a, g (Function.update f a v i) = ∑ i ∈ keys.erase a, g (f i) := by
    apply sum_congr rfl
    intro i hi
    rw [Function.update_of_ne (mem_erase.mp hi).1]
  rw [← add_sum_erase _ _ inside, ← add_sum_erase _ _ inside, others, Function.update_self]
  omega

omit [Fintype ι] in
/-- The same within one row. -/
theorem rowSum_update [DecidableEq ι] (g : ℕ → ℕ) (f : ι → ℕ → ℕ) (a : ι) {b : ℕ}
    (inside : b < N) (v : ℕ) :
    (∑ j ∈ range N, g (update₂ f a b v a j)) + g (f a b) = (∑ j ∈ range N, g (f a j)) + g v := by
  have member : b ∈ range N := mem_range.mpr inside
  have others : ∑ j ∈ (range N).erase b, g (update₂ f a b v a j) = ∑ j ∈ (range N).erase b,
      g (f a j) := by
    apply sum_congr rfl
    intro j hj
    rw [update₂_of_ne]
    rintro ⟨-, rfl⟩
    exact (mem_erase.mp hj).1 rfl
  rw [← add_sum_erase _ _ member, ← add_sum_erase _ _ member, others]
  simp only [update₂_same]
  omega

theorem gridSum_add (f g : ι → ℕ → ℕ) : gridSum N (fun i j => f i j + g i j) = gridSum N f +
    gridSum N g := by
  simp only [gridSum, sum_add_distrib]

theorem gridSum_rows {f : ι → ℕ → ℕ} {r : ι → ℕ} (rows : ∀ i, ∑ j ∈ range N, f i j ≤ r i) :
    gridSum N f ≤ ∑ i, r i :=
  sum_le_sum fun i _ => rows i

theorem le_gridSum (f : ι → ℕ → ℕ) (a : ι) {b : ℕ} (inside : b < N) : f a b ≤ gridSum N f :=
  (single_le_sum (f := f a) (fun _ _ => Nat.zero_le _) (mem_range.mpr inside)).trans
    (single_le_sum (f := fun i => ∑ j ∈ range N, f i j) (fun _ _ => Nat.zero_le _) (mem_univ a))

theorem gridSum_mono {f g : ι → ℕ → ℕ} (le : ∀ i, ∀ j < N, f i j ≤ g i j) :
    gridSum N f ≤ gridSum N g :=
  sum_le_sum fun i _ => sum_le_sum fun j hj => le i j (mem_range.mp hj)

/-- Tests no element passes two of: their tallies add up to no more than the tally of what passes
any. -/
theorem gridSum_tally_le {α : Type} {w : α → ℕ} {p : ι → ℕ → α → Bool} {q : α → Bool} (l : List α)
    (covered : ∀ i j x, p i j x = true → q x = true)
    (once : ∀ x i j i' j', p i j x = true → p i' j' x = true → i = i' ∧ j = j') :
    gridSum N (fun i j => tally w (p i j) l) ≤ tally w q l := by
  induction l with
  | nil => simp [gridSum]
  | cons x rest ih =>
    have split : gridSum N (fun i j => tally w (p i j) (x :: rest)) =
        gridSum N (fun i j => if p i j x then w x else 0) +
          gridSum N (fun i j => tally w (p i j) rest) := by
      simp only [gridSum, tally_cons, sum_add_distrib]
    have head : gridSum N (fun i j => if p i j x then w x else 0) ≤ if q x then w x else 0 := by
      by_cases some : ∃ i, ∃ j, p i j x = true
      · obtain ⟨i, j, passes⟩ := some
        rw [if_pos (covered i j x passes), gridSum, sum_eq_single i]
        · by_cases inside : j < N
          · rw [sum_eq_single j, if_pos passes]
            · intro j' _ other
              rw [if_neg fun also => other (once x i j' i j also passes).2]
            · exact fun outside => absurd (mem_range.mpr inside) outside
          · rw [sum_eq_zero]
            · exact Nat.zero_le _
            · intro j' below
              rw [if_neg fun also => inside ((once x i j' i j also passes).2 ▸ mem_range.mp below)]
        · intro i' _ other
          exact sum_eq_zero fun j' _ => if_neg fun also => other (once x i' j' i j also passes).1
        · exact fun outside => absurd (mem_univ i) outside
      · have none : gridSum N (fun i j => if p i j x then w x else 0) = 0 :=
          sum_eq_zero fun i _ => sum_eq_zero fun j _ => if_neg fun passes => some ⟨i, j, passes⟩
        rw [none]
        exact Nat.zero_le _
    rw [split, tally_cons]
    exact Nat.add_le_add head ih

end Pyrrha.Lib

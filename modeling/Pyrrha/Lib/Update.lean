import Mathlib.Data.List.Induction
import Mathlib.Logic.Function.Basic

/-! Point updates of tables of one and two arguments, and the facts about them a proof reads. -/

namespace Pyrrha.Lib

variable {α β γ : Type*} [DecidableEq α] [DecidableEq β]

/-- The table `f` with the value at `(a, b)` replaced by `v`. -/
def update₂ (f : α → β → γ) (a : α) (b : β) (v : γ) : α → β → γ :=
  fun x y => if x = a ∧ y = b then v else f x y

@[simp] theorem update₂_same (f : α → β → γ) (a : α) (b : β) (v : γ) : update₂ f a b v a b = v := by
  simp [update₂]

theorem update₂_apply (f : α → β → γ) (a x : α) (b y : β) (v : γ) :
    update₂ f a b v x y = if x = a ∧ y = b then v else f x y := rfl

theorem update₂_row (f : α → β → γ) {a x : α} (h : x ≠ a) (b : β) (v : γ) :
    update₂ f a b v x = f x := by
  funext y
  simp [update₂, h]

theorem update₂_of_ne (f : α → β → γ) {a x : α} {b y : β} (v : γ) (h : ¬(x = a ∧ y = b)) :
    update₂ f a b v x y = f x y := if_neg h

theorem update₂_le {f : α → β → ℕ} {a : α} {b : β} {v : ℕ} (below : v ≤ f a b) (x : α) (y : β) :
    update₂ f a b v x y ≤ f x y := by
  rw [update₂_apply]
  split
  · rename_i here
    rw [here.1, here.2]
    exact below
  · exact Nat.le_refl _

omit [DecidableEq β] in
/-- After a loop that writes the entries of `l`. -/
theorem foldl_update_mem {value old : α → β} {l : List α} {j : α} (member : j ∈ l) :
    l.foldl (fun table i => Function.update table i (value i)) old j = value j := by
  induction l using List.reverseRecOn with
  | nil => cases member
  | append_singleton l i ih =>
    rw [List.foldl_append, List.foldl_cons, List.foldl_nil]
    by_cases same : j = i
    · rw [same, Function.update_self]
    · have earlier :=
        (List.mem_append.mp member).resolve_right (fun last => same (List.mem_singleton.mp last))
      rw [Function.update_of_ne same, ih earlier]

end Pyrrha.Lib

import Mathlib.Data.Nat.Init

/-!
A list of marks from some position on, each of which says whether its position belongs to a set: how
it is shortened, extended and corrected.
-/

namespace Pyrrha.Lib

variable {α : Type} {yes no : α} {S T : ℕ → Prop} {b : ℕ} {l m : List α}

/-- The marks of the positions from `b` on, `yes` for those in `S` and `no` for the others. -/
def Marks (yes no : α) (S : ℕ → Prop) (b : ℕ) (l : List α) : Prop :=
  ∀ j x, l[j]? = some x → x = yes ∧ S (b + j) ∨ x = no ∧ ¬ S (b + j)

theorem marks_nil : Marks yes no S b [] := fun _ _ at_j => by simp at at_j

theorem marks_head {x : α} (h : Marks yes no S b (x :: l)) : x = yes ∧ S b ∨ x = no ∧
    ¬ S b := h 0 x rfl

theorem marks_tail {x : α} (h : Marks yes no S b (x :: l)) : Marks yes no S (b + 1) l := by
  intro j y at_j
  have later := h (j + 1) y at_j
  rwa [show b + (j + 1) = b + 1 + j by omega] at later

/-- Only the positions that have a mark matter. -/
theorem marks_congr (h : Marks yes no S b l) (same : ∀ k, b ≤ k → k < b + l.length → (S k ↔ T k)) :
    Marks yes no T b l := by
  intro j x at_j
  have short := (List.getElem?_eq_some_iff.mp at_j).1
  have here := same (b + j) (by omega) (by omega)
  rcases h j x at_j with ⟨eq, inside⟩ | ⟨eq, outside⟩
  · exact .inl ⟨eq, here.mp inside⟩
  · exact .inr ⟨eq, fun inside => outside (here.mpr inside)⟩

theorem marks_append (h : Marks yes no S b l) (h' : Marks yes no S (b + l.length) m) :
    Marks yes no S b (l ++ m) := by
  intro j x at_j
  rcases Nat.lt_or_ge j l.length with lt | ge
  · rw [List.getElem?_append_left lt] at at_j
    exact h j x at_j
  · rw [List.getElem?_append_right ge] at at_j
    have later := h' (j - l.length) x at_j
    rwa [show b + l.length + (j - l.length) = b + j by omega] at later

theorem marks_replicate {n : ℕ} (outside : ∀ k, b ≤ k → k < b + n → ¬ S k) :
    Marks yes no S b (List.replicate n no) := by
  intro j x at_j
  rw [List.getElem?_replicate] at at_j
  split at at_j
  · rename_i lt
    exact .inr ⟨(Option.some.inj at_j).symm, outside _ (by omega) (by omega)⟩
  · cases at_j

theorem marks_singleton (inside : S b) : Marks yes no S b [yes] := by
  intro j x at_j
  cases j with
  | zero => exact .inl ⟨(Option.some.inj at_j).symm, inside⟩
  | succ j => simp at at_j

/-- A position that enters the set has its mark corrected. -/
theorem marks_set {j : ℕ} (h : Marks yes no S b l) :
    Marks yes no (fun k => k = b + j ∨ S k) b (l.set j yes) := by
  intro i x at_i
  rw [List.getElem?_set] at at_i
  split at at_i
  · rename_i eq
    subst eq
    split at at_i
    · exact .inl ⟨(Option.some.inj at_i).symm, .inl rfl⟩
    · cases at_i
  · rename_i other
    rcases h i x at_i with ⟨eq, inside⟩ | ⟨eq, outside⟩
    · exact .inl ⟨eq, .inr inside⟩
    · refine .inr ⟨eq, fun inside => ?_⟩
      rcases inside with here | inside
      · omega
      · exact outside inside

end Pyrrha.Lib

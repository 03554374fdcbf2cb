import Pyrrha.Lib.Tally
import Pyrrha.Lib.Wrapping

/-! Unsigned counters that are kept beside a list and meant to be the total weight of those of its
elements that pass a test. -/

namespace Pyrrha.Lib

variable {α : Type} {m c : ℕ} {w : α → ℕ} {p : α → Bool} {l : List α}

/-- The counter `c`, which wraps at `m`, keeps account of the elements of `l` that pass `p`. -/
def Keeps (m c : ℕ) (w : α → ℕ) (p : α → Bool) (l : List α) : Prop := Tracks m c (tally w p l : ℕ)

theorem keeps_nil (pos : 0 < m) : Keeps m 0 w p [] := tracks_zero pos

/-- Elements that do not pass the test need no entry. -/
theorem keeps_skip {rest : List α} (h : Keeps m c w p l) (skip : ∀ x ∈ rest, p x = false) :
    Keeps m c w p (l ++ rest) := by
  rw [Keeps, tally_append, tally_zero skip, Nat.add_zero]
  exact h

theorem keeps_concat {x : α} (h : Keeps m c w p l) :
    Keeps m (if p x then (c + w x) % m else c) w p (l ++ [x]) := by
  rw [Keeps, tally_concat]
  split
  · rw [Nat.cast_add]
    exact tracks_add h _
  · exact h

theorem keeps_eraseIdx {x : α} {k : ℕ} (h : Keeps m c w p l) (at_k : l[k]? = some x)
    (le : w x ≤ m) : Keeps m (if p x then (c + m - w x) % m else c) w p (l.eraseIdx k) := by
  have removed := tally_eraseIdx (w := w) (p := p) at_k
  unfold Keeps at h ⊢
  split
  · rename_i passes
    rw [if_pos passes] at removed
    have rest : (tally w p (l.eraseIdx k) : ℤ) = tally w p l - w x := by omega
    rw [rest]
    exact tracks_sub h le
  · rename_i fails
    rw [if_neg fails] at removed
    rw [show tally w p (l.eraseIdx k) = tally w p l from removed]
    exact h

theorem keeps_congr {w' : α → ℕ} {p' : α → Bool} {l' : List α} (h : Keeps m c w p l)
    (same : tally w' p' l' = tally w p l) : Keeps m c w' p' l' := by
  rw [Keeps, same]
  exact h

/-- As long as the total fits, the counter is the total. -/
theorem keeps_exact (h : Keeps m c w p l) (fits : tally w p l < m) : c = tally w p l :=
  (tracks_exact h).mpr fits

end Pyrrha.Lib

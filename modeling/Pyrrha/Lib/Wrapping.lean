import Mathlib.Data.Int.ModEq

/-! Unsigned counters that wrap at `m`, the integers they stand for, and counts in units that are
cut to a field. -/

namespace Pyrrha.Lib

variable {m c : ℕ} {x : ℤ}

/-- The counter `c`, which wraps at `m`, stands for `x`. -/
structure Tracks (m c : ℕ) (x : ℤ) : Prop where
  lt : c < m
  mod : (c : ℤ) ≡ x [ZMOD m]

theorem tracks_zero (pos : 0 < m) : Tracks m 0 0 := ⟨pos, Int.ModEq.refl 0⟩

theorem tracks_add (h : Tracks m c x) (k : ℕ) : Tracks m ((c + k) % m) (x + k) := by
  refine ⟨Nat.mod_lt _ (by have := h.lt; omega), ?_⟩
  have sum : ((c + k : ℕ) : ℤ) ≡ x + k [ZMOD m] := by
    rw [Nat.cast_add]
    exact h.mod.add_right k
  rw [Int.natCast_mod]
  exact (Int.mod_modEq _ _).trans sum

theorem tracks_sub (h : Tracks m c x) {k : ℕ} (le : k ≤ m) :
    Tracks m ((c + m - k) % m) (x - k) := by
  refine ⟨Nat.mod_lt _ (by have := h.lt; omega), ?_⟩
  have difference : ((c + m - k : ℕ) : ℤ) ≡ x - k [ZMOD m] := by
    rw [Nat.cast_sub (by omega), Nat.cast_add, add_sub_right_comm]
    have wrapped : (c : ℤ) - k + m ≡ c - k [ZMOD m] := by simp [Int.ModEq]
    exact wrapped.trans (h.mod.sub_right k)
  rw [Int.natCast_mod]
  exact (Int.mod_modEq _ _).trans difference

/-- A counter is exact as long as what it stands for fits. -/
theorem tracks_exact {k : ℕ} (h : Tracks m c k) : c = k ↔ k < m := by
  have lt := h.lt
  have mod := Nat.ModEq.eq_of_lt_of_lt (Int.natCast_modEq_iff.mp h.mod) lt
  exact ⟨fun eq => eq ▸ lt, mod⟩

theorem tracks_unique {d : ℕ} (h : Tracks m c x) (h' : Tracks m d x) : c = d :=
  Nat.ModEq.eq_of_lt_of_lt (Int.natCast_modEq_iff.mp (h.mod.trans h'.mod.symm)) h.lt h'.lt

/-- A counter never exceeds a natural number it stands for. -/
theorem tracks_le {k : ℕ} (h : Tracks m c k) : c ≤ k := by
  have same : c % m = k % m := Int.natCast_modEq_iff.mp h.mod
  rw [Nat.mod_eq_of_lt h.lt] at same
  rw [same]
  exact Nat.mod_le k m

/-- The sum of counters stands for the sum of what they stand for. -/
theorem tracks_sum {ι : Type} {counter total : ι → ℕ} {l : List ι} (pos : 0 < m)
    (each : ∀ i ∈ l, Tracks m (counter i) (total i)) :
    Tracks m ((l.map counter).sum % m) ((l.map total).sum : ℕ) := by
  induction l with
  | nil => exact tracks_zero pos
  | cons i rest ih =>
    have others := ih fun j member => each j (List.mem_cons_of_mem i member)
    refine ⟨Nat.mod_lt _ pos, ?_⟩
    rw [List.map_cons, List.map_cons, List.sum_cons, List.sum_cons, Int.natCast_mod]
    refine (Int.mod_modEq _ _).trans ?_
    rw [Nat.cast_add, Nat.cast_add]
    have tail := others.mod
    rw [Int.natCast_mod] at tail
    exact (each i List.mem_cons_self).mod.add ((Int.mod_modEq _ _).symm.trans tail)

/-! ### Fields that are subtracted -/

/-- How far the field `a` is past `b`, on a circle of `m`. -/
def lapped (m a b : ℕ) : ℕ := if b ≤ a then a - b else a + m - b

/-- Less than a lap apart, the difference of the fields is that of the counters. -/
theorem lapped_exact {a b : ℕ} (le : a ≤ b) (near : b - a < m) :
    lapped m (b % m) (a % m) = b - a := by
  have pos : 0 < m := by omega
  have low := Nat.div_add_mod a m
  have high := Nat.div_add_mod b m
  have lowLt := Nat.mod_lt a pos
  have highLt := Nat.mod_lt b pos
  have laps : b / m = a / m ∨ b / m = a / m + 1 := by
    have mono := @Nat.div_le_div_right _ _ m le
    have next : b / m ≤ a / m + 1 := by
      rw [← Nat.add_div_right a pos]
      exact Nat.div_le_div_right (by omega)
    omega
  unfold lapped
  rcases laps with same | next
  · rw [same] at high
    rw [if_pos (by omega)]
    omega
  · rw [next, Nat.mul_add, Nat.mul_one] at high
    rw [if_neg (by omega)]
    omega

/-! ### Counts in units -/

variable {u : ℕ}

theorem units_le {a b k : ℕ} (pos : 0 < u) (near : b - a ≤ k * u) : b / u - a / u ≤ k := by
  have reach : b / u ≤ a / u + k := by
    rw [← Nat.add_mul_div_right a k pos]
    exact Nat.div_le_div_right (by omega)
  omega

/-- A difference of whole units misses that of the counts by less than one. -/
theorem units_difference {a b : ℕ} (pos : 0 < u) (le : a ≤ b) :
    (b / u - a / u) * u < b - a + u ∧ b - a < (b / u - a / u) * u + u := by
  have low := Nat.div_add_mod' a u
  have high := Nat.div_add_mod' b u
  have lowLt := Nat.mod_lt a pos
  have highLt := Nat.mod_lt b pos
  have mono := Nat.mul_le_mul_right u (@Nat.div_le_div_right _ _ u le)
  rw [Nat.sub_mul]
  omega

/-- The units in a field that wraps at `m` are less than one below the count just when the count is
below `m` units. -/
theorem units_field_iff {q : ℕ} (fieldPos : 0 < m) (pos : 0 < u) :
    (q / u % m * u ≤ q ∧ q < q / u % m * u + u) ↔ q < m * u := by
  have whole := Nat.div_add_mod' q u
  have rest := Nat.mod_lt q pos
  constructor
  · rintro ⟨-, near⟩
    have field : (q / u % m + 1) * u ≤ m * u := Nat.mul_le_mul_right u (Nat.mod_lt _ fieldPos)
    rw [Nat.add_mul, Nat.one_mul] at field
    omega
  · intro fits
    rw [Nat.mod_eq_of_lt ((Nat.div_lt_iff_lt_mul pos).mpr fits)]
    omega

end Pyrrha.Lib

import Mathlib.Data.List.Induction
import Mathlib.Data.Nat.Notation

/-! The earliest time of a table in which 0 stands for none, found by one scan over its keys. -/

namespace Pyrrha.Lib

variable {α : Type*} {time : α → ℕ} {keys : List α} {limit : ℕ} {a b : α}

/-- The time of `a` is set, and none is earlier. -/
structure IsEarliest (time : α → ℕ) (a : α) : Prop where
  set : time a ≠ 0
  least : ∀ b, time b ≠ 0 → time a ≤ time b

/-- What the scan keeps when it comes to `key`: the earliest time so far, and whose it is. -/
def keepEarlier (time : α → ℕ) (best : ℕ × Option α) (key : α) : ℕ × Option α :=
  if time key ≠ 0 ∧ time key < best.1 then (time key, some key) else best

def scanEarliest (time : α → ℕ) (limit : ℕ) (keys : List α) : ℕ × Option α :=
  keys.foldl (keepEarlier time) (limit, none)

theorem scanEarliest_concat {key : α} :
    scanEarliest time limit (keys ++ [key]) =
      keepEarlier time (scanEarliest time limit keys) key := by
  rw [scanEarliest, List.foldl_append]
  rfl

theorem scanEarliest_le {key : α} (member : key ∈ keys) (set : time key ≠ 0) :
    (scanEarliest time limit keys).1 ≤ time key := by
  induction keys using List.reverseRecOn with
  | nil => cases member
  | append_singleton keys last ih =>
    rw [scanEarliest_concat]
    unfold keepEarlier
    split
    · rename_i earlier
      rcases List.mem_append.mp member with before | here
      · exact Nat.le_trans (Nat.le_of_lt earlier.2) (ih before)
      · exact Nat.le_of_eq (congrArg time (List.mem_singleton.mp here)).symm
    · rename_i later
      rcases List.mem_append.mp member with before | here
      · exact ih before
      · rw [← List.mem_singleton.mp here] at later
        by_contra less
        exact later ⟨set, Nat.lt_of_not_le less⟩

theorem scanEarliest_found : scanEarliest time limit keys = (limit, none) ∨
    ∃ key, time key ≠ 0 ∧ scanEarliest time limit keys = (time key, some key) := by
  induction keys using List.reverseRecOn with
  | nil => exact .inl rfl
  | append_singleton keys last ih =>
    rw [scanEarliest_concat]
    unfold keepEarlier
    split
    · rename_i earlier
      exact .inr ⟨last, earlier.1, rfl⟩
    · exact ih

/-- A scan over all keys with a time finds the earliest one, as long as none is beyond the limit. -/
theorem scanEarliest_spec (complete : ∀ a, time a ≠ 0 → a ∈ keys) (below : ∀ a, time a < limit) :
    (∀ a, time a = 0) ∧ (scanEarliest time limit keys).2 = none ∨
      ∃ a, IsEarliest time a ∧ scanEarliest time limit keys = (time a, some a) := by
  rcases @scanEarliest_found α time keys limit with none | ⟨a, set, found⟩
  · refine .inl ⟨fun a => ?_, by rw [none]⟩
    by_contra set
    have le := @scanEarliest_le α time keys limit _ (complete a set) set
    have lt := below a
    rw [none] at le
    exact absurd lt (Nat.not_lt.mpr le)
  · refine .inr ⟨a, ⟨set, fun b other => ?_⟩, found⟩
    have le := @scanEarliest_le α time keys limit _ (complete b other) other
    rw [found] at le
    exact le

end Pyrrha.Lib

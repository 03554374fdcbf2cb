import Mathlib.Order.Monotone.Basic
import Mathlib.Order.Nat
import Mathlib.Tactic.Common

/-!
A level that rises turn by turn past a sequence of milestones, of which a turn takes no more than
one: which turns take one.
-/

namespace Pyrrha.Lib

variable {f level : ℕ → ℕ} {i : ℕ}

/-- How many milestones have been taken before turn `i`. -/
def taken (f level : ℕ → ℕ) : ℕ → ℕ
  | 0 => 0
  | i + 1 => if f (taken f level i) ≤ level i then taken f level i + 1 else taken f level i

/-- Turn `i` reaches the next milestone. -/
def Takes (f level : ℕ → ℕ) (i : ℕ) : Prop := f (taken f level i) ≤ level i

theorem taken_of_takes (h : Takes f level i) : taken f level (i + 1) = taken f level i + 1 :=
  if_pos h

theorem taken_of_not_takes (h : ¬ Takes f level i) : taken f level (i + 1) = taken f level i :=
  if_neg h

theorem taken_le_succ (f level : ℕ → ℕ) (i : ℕ) :
    taken f level i ≤ taken f level (i + 1) ∧ taken f level (i + 1) ≤ taken f level i + 1 := by
  by_cases h : Takes f level i
  · rw [taken_of_takes h]
    omega
  · rw [taken_of_not_takes h]
    omega

theorem taken_le (f level : ℕ → ℕ) (i : ℕ) : taken f level i ≤ i := by
  induction i with
  | zero => exact Nat.le_refl 0
  | succ i ih =>
    have := (taken_le_succ f level i).2
    omega

theorem taken_of_all {n : ℕ} (all : ∀ k < n, Takes f level k) : taken f level n = n := by
  induction n with
  | zero => rfl
  | succ n ih =>
    rw [taken_of_takes (all n (Nat.lt_succ_self n)), ih fun k lt => all k (by omega)]

/-- Every turn takes a milestone if each reaches the one of its own number. -/
theorem takes_all_iff {n : ℕ} : (∀ k < n, Takes f level k) ↔ ∀ k < n, f k ≤ level k := by
  constructor
  · intro all k lt
    have takes := all k lt
    rwa [Takes, taken_of_all fun j before => all j (by omega)] at takes
  · intro reached k
    induction k using Nat.strong_induction_on with
    | _ k ih =>
      intro lt
      rw [Takes, taken_of_all fun j before => ih j before (by omega)]
      exact reached k lt

/-- A milestone that has been taken was reached early enough for those after it. -/
theorem taken_reached (mono : Monotone level) {j : ℕ} (lt : j < taken f level i) :
    f j ≤ level (i - (taken f level i - j)) := by
  induction i with
  | zero => simp [taken] at lt
  | succ i ih =>
    have most := taken_le f level i
    by_cases h : Takes f level i
    · rw [taken_of_takes h] at lt ⊢
      rcases Nat.lt_succ_iff_lt_or_eq.mp lt with old | rfl
      · have same : i + 1 - (taken f level i + 1 - j) = i - (taken f level i - j) := by omega
        rw [same]
        exact ih old
      · have here : i + 1 - (taken f level i + 1 - taken f level i) = i := by omega
        rw [here]
        exact h
    · rw [taken_of_not_takes h] at lt ⊢
      exact (ih lt).trans (mono (by omega))

/-- A milestone beyond the level of a turn has not been taken by then. -/
theorem taken_le_of_lt (mono : Monotone level) {j : ℕ} (beyond : level i < f j) :
    taken f level (i + 1) ≤ j := by
  by_contra more
  have reached := taken_reached mono (not_le.mp more)
  have := mono (show i + 1 - (taken f level (i + 1) - j) ≤ i by omega)
  omega

/-- Milestones that are each reached in time for turn `i` are all taken. -/
theorem le_taken {c j : ℕ} (le : c ≤ i) (reached : ∀ j ≤ c, f j ≤ level (i - (c - j)))
    (within : j ≤ c) : j ≤ taken f level (i - (c - j)) := by
  induction j with
  | zero => exact Nat.zero_le _
  | succ j ih =>
    have before := ih (by omega)
    have next : i - (c - (j + 1)) = i - (c - j) + 1 := by omega
    rw [next]
    rcases before.lt_or_eq with lt | eq
    · exact lt.trans_le (taken_le_succ f level _).1
    · have takes : Takes f level (i - (c - j)) := by
        rw [Takes, ← eq]
        exact reached j (by omega)
      rw [taken_of_takes takes]
      omega

/-- Turn `i` takes a milestone if it ends a row of turns that take one each: the milestones before
that are reached in time, and the row could not have started earlier. -/
theorem takes_iff (mono : Monotone level) : Takes f level i ↔
    ∃ c ≤ i, (∀ j ≤ c, f j ≤ level (i - (c - j))) ∧
      ∃ j ≤ c, c - j = i ∨ level (i - (c - j) - 1) < f j := by
  constructor
  · intro takes
    refine ⟨taken f level i, taken_le f level i, fun j le => ?_, ?_⟩
    · rcases le.lt_or_eq with lt | rfl
      · exact taken_reached mono lt
      · rw [Nat.sub_self]
        exact takes
    · clear takes
      induction i with
      | zero => exact ⟨0, Nat.le_refl 0, .inl rfl⟩
      | succ i ih =>
        by_cases before : Takes f level i
        · obtain ⟨j, le, start⟩ := ih
          rw [taken_of_takes before]
          refine ⟨j, by omega, ?_⟩
          have same : i + 1 - (taken f level i + 1 - j) = i - (taken f level i - j) := by omega
          rw [same]
          exact start.imp_left (by omega)
        · rw [taken_of_not_takes before]
          refine ⟨_, Nat.le_refl _, .inr ?_⟩
          rw [Nat.sub_self]
          exact not_le.mp before
  · rintro ⟨c, le, reached, j, within, start⟩
    -- the row starts with milestone `j`, and every turn from there on takes one
    have first : taken f level (i - (c - j)) ≤ j := by
      rcases start with all | beyond
      · rw [all, Nat.sub_self]
        exact Nat.zero_le _
      · rcases Nat.eq_zero_or_pos (i - (c - j)) with zero | pos
        · rw [zero]
          exact Nat.zero_le _
        · have := taken_le_of_lt mono beyond
          rwa [Nat.sub_add_cancel pos] at this
    have row : ∀ n, j + n ≤ c → taken f level (i - (c - (j + n))) ≤ j + n := by
      intro n
      induction n with
      | zero => exact fun _ => first
      | succ n ih =>
        intro more
        have next : i - (c - (j + (n + 1))) = i - (c - (j + n)) + 1 := by omega
        have := ih (by omega)
        have := (taken_le_succ f level (i - (c - (j + n)))).2
        rw [next]
        omega
    have most := row (c - j) (by omega)
    have least := le_taken le reached (Nat.le_refl c)
    rw [Nat.add_sub_cancel' within, Nat.sub_self] at most
    rw [Nat.sub_self] at least
    have all : taken f level i = c := Nat.le_antisymm most least
    rw [Takes, all]
    have := reached c (Nat.le_refl c)
    rwa [Nat.sub_self] at this

/-- Evenly spaced milestones and a level that rises evenly. -/
theorem taken_even {a b n : ℕ} (pos : 0 < a) (spaced : ∀ j ≤ n, j * a ≤ n * b → f j = (j + 1) * a)
    (rises : ∀ k < n, level k = (k + 1) * b) : taken f level n = min n (n * b / a) := by
  induction n with
  | zero => simp [taken]
  | succ n ih =>
    have grows : n * b ≤ (n + 1) * b := Nat.mul_le_mul_right b (Nat.le_succ n)
    have before := ih (fun j le within => spaced j (by omega) (by omega)) fun k lt =>
      rises k (by omega)
    have most := taken_le f level n
    have within : taken f level n * a ≤ n * b := (Nat.le_div_iff_mul_le pos).mp (by omega)
    have takes : Takes f level n ↔ taken f level n + 1 ≤ (n + 1) * b / a := by
      rw [Takes, spaced _ (by omega) (by omega), rises n (Nat.lt_succ_self n),
        Nat.le_div_iff_mul_le pos]
    have step : n * b / a ≤ (n + 1) * b / a :=
      Nat.div_le_div_right (Nat.mul_le_mul_right b (Nat.le_succ n))
    rcases Nat.lt_or_ge b a with slow | fast
    · have near : (n + 1) * b / a ≤ n * b / a + 1 := by
        rw [← Nat.add_div_right _ pos, Nat.succ_mul]
        exact Nat.div_le_div_right (by omega)
      have below : n * b / a ≤ n := Nat.div_le_of_le_mul (by
        rw [Nat.mul_comm a]
        exact Nat.mul_le_mul_left n slow.le)
      by_cases h : Takes f level n
      · rw [taken_of_takes h]
        have := takes.mp h
        omega
      · rw [taken_of_not_takes h]
        have := mt takes.mpr h
        omega
    · have ahead (m : ℕ) : m ≤ m * b / a :=
        (Nat.le_div_iff_mul_le pos).mpr (Nat.mul_le_mul_left m fast)
      have := ahead n
      have := ahead (n + 1)
      rw [taken_of_takes (takes.mpr (by omega))]
      omega

end Pyrrha.Lib

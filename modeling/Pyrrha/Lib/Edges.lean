import Mathlib.Order.Basic
import Mathlib.Data.Nat.Notation
import Mathlib.Logic.Function.Basic

/-!
Flags kept at the far end of a channel that delivers in order: only the moments at which a counter
leaves zero or comes back to it are reported, and a report that clears a flag must find it set.
-/

namespace Pyrrha.Lib

variable {κ : Type} [DecidableEq κ] {flags : κ → Bool} {reports : List (κ × Bool)}
    {count count' : κ → ℕ}

/-- A report takes effect; `none` is a report that clears what is not set. -/
def applyReport (flags : κ → Bool) (report : κ × Bool) : Option (κ → Bool) :=
  if report.2 = false ∧ flags report.1 = false then none
  else some (Function.update flags report.1 report.2)

/-- Once the reports on their way have taken effect, the flags say which counters are positive. -/
def Follows (flags : κ → Bool) (reports : List (κ × Bool)) (count : κ → ℕ) : Prop :=
  ∃ final, reports.foldlM applyReport flags = some final ∧ ∀ k, final k = true ↔ 0 < count k

theorem follows_initial : Follows (fun _ : κ => false) [] fun _ => 0 :=
  ⟨_, rfl, fun _ => ⟨nofun, fun pos => absurd pos (Nat.lt_irrefl 0)⟩⟩

theorem follows_same (h : Follows flags reports count) (same : ∀ k, 0 < count' k ↔ 0 < count k) :
    Follows flags reports count' := by
  obtain ⟨final, replay, agree⟩ := h
  exact ⟨final, replay, fun k => (agree k).trans (same k).symm⟩

theorem foldlM_concat {final : κ → Bool} (replay : reports.foldlM applyReport flags = some final)
    (report : κ × Bool) :
    (reports ++ [report]).foldlM applyReport flags = applyReport final report := by
  rw [List.foldlM_append, replay]
  exact bind_pure (applyReport final report)

/-- A counter that leaves zero is reported. -/
theorem follows_rise (h : Follows flags reports count) {k : κ} (rises : 0 < count' k)
    (others : ∀ j, j ≠ k → (0 < count' j ↔ 0 < count j)) :
    Follows flags (reports ++ [(k, true)]) count' := by
  obtain ⟨final, replay, agree⟩ := h
  refine ⟨Function.update final k true, ?_, fun j => ?_⟩
  · rw [foldlM_concat replay, applyReport, if_neg fun both => Bool.noConfusion both.1]
  · by_cases here : j = k
    · subst here
      rw [Function.update_self]
      exact ⟨fun _ => rises, fun _ => rfl⟩
    · rw [Function.update_of_ne here]
      exact (agree j).trans (others j here).symm

/-- A counter that comes back to zero is reported, and its flag is set until then. -/
theorem follows_fall (h : Follows flags reports count) {k : κ} (was : 0 < count k)
    (falls : count' k = 0) (others : ∀ j, j ≠ k → (0 < count' j ↔ 0 < count j)) :
    Follows flags (reports ++ [(k, false)]) count' := by
  obtain ⟨final, replay, agree⟩ := h
  have set := (agree k).mpr was
  refine ⟨Function.update final k false, ?_, fun j => ?_⟩
  · rw [foldlM_concat replay, applyReport, if_neg fun both =>
      Bool.noConfusion (both.2.symm.trans set)]
  · by_cases here : j = k
    · subst here
      rw [Function.update_self, falls]
      exact ⟨nofun, fun pos => absurd pos (Nat.lt_irrefl 0)⟩
    · rw [Function.update_of_ne here]
      exact (agree j).trans (others j here).symm

/-- The oldest report can take effect, and the rest still follows. -/
theorem follows_deliver {report : κ × Bool} (h : Follows flags (report :: reports) count) :
    ∃ flags', applyReport flags report = some flags' ∧ Follows flags' reports count := by
  obtain ⟨final, replay, agree⟩ := h
  rw [List.foldlM_cons] at replay
  obtain ⟨flags', delivered, rest⟩ := Option.bind_eq_some_iff.mp replay
  exact ⟨flags', delivered, final, rest, agree⟩

end Pyrrha.Lib

import Mathlib.Data.Finset.Card
import Mathlib.Data.List.Pairwise
import Mathlib.Order.Defs.LinearOrder
import Mathlib.Tactic.Tauto

/-! Finite sets of numbers in increasing order, as `std::set` keeps and iterates them. -/

namespace Pyrrha.Lib

structure OrderedSet where
  elems : List ℕ
  sorted : elems.Pairwise (· < ·)
  deriving DecidableEq

namespace OrderedSet

instance : EmptyCollection OrderedSet := ⟨⟨[], .nil⟩⟩

instance : Membership ℕ OrderedSet := ⟨fun s x => x ∈ s.elems⟩

instance (x : ℕ) (s : OrderedSet) : Decidable (x ∈ s) := inferInstanceAs (Decidable (x ∈ s.elems))

theorem mem_def {x : ℕ} {s : OrderedSet} : x ∈ s ↔ x ∈ s.elems := Iff.rfl

def insertElem (x : ℕ) : List ℕ → List ℕ
  | [] => [x]
  | y :: rest =>
      if x < y then x :: y :: rest else if x = y then y :: rest else y :: insertElem x rest

theorem mem_insertElem (x z : ℕ) (l : List ℕ) : z ∈ insertElem x l ↔ z = x ∨ z ∈ l := by
  induction l with
  | nil => simp [insertElem]
  | cons y rest ih =>
    simp only [insertElem]
    split
    · simp
    split
    · rename_i eq
      subst eq
      simp
    · simp only [List.mem_cons, ih]
      tauto

theorem sorted_insertElem (x : ℕ) {l : List ℕ} (h : l.Pairwise (· < ·)) :
    (insertElem x l).Pairwise (· < ·) := by
  induction l with
  | nil => exact List.pairwise_singleton _ x
  | cons y rest ih =>
    obtain ⟨below, tail⟩ := List.pairwise_cons.mp h
    simp only [insertElem]
    split
    · rename_i lt
      refine List.pairwise_cons.mpr ⟨fun z hz => ?_, h⟩
      rcases List.mem_cons.mp hz with rfl | hz
      · exact lt
      · exact Nat.lt_trans lt (below z hz)
    split
    · exact h
    · refine List.pairwise_cons.mpr ⟨fun z hz => ?_, ih tail⟩
      rcases (mem_insertElem x z rest).mp hz with rfl | hz
      · omega
      · exact below z hz

def insert (s : OrderedSet) (x : ℕ) : OrderedSet :=
  ⟨insertElem x s.elems, sorted_insertElem x s.sorted⟩

def erase (s : OrderedSet) (x : ℕ) : OrderedSet :=
  ⟨s.elems.erase x, s.sorted.sublist List.erase_sublist⟩

@[simp] theorem mem_insert {s : OrderedSet} {x z : ℕ} : z ∈ s.insert x ↔ z = x ∨ z ∈ s :=
  mem_insertElem x z s.elems

theorem mem_of_erase {s : OrderedSet} {x z : ℕ} (h : z ∈ s.erase x) : z ∈ s :=
  List.mem_of_mem_erase h

theorem nodup (s : OrderedSet) : s.elems.Nodup := s.sorted.imp Nat.ne_of_lt

theorem mem_erase {s : OrderedSet} {x z : ℕ} : z ∈ s.erase x ↔ z ≠ x ∧ z ∈ s :=
  s.nodup.mem_erase_iff

/-- The first element is the smallest. -/
theorem head_le {s : OrderedSet} {x : ℕ} {rest : List ℕ} (h : s.elems = x :: rest) :
    ∀ z ∈ s, x ≤ z := by
  intro z member
  have sorted := s.sorted
  rw [mem_def, h] at member
  rw [h] at sorted
  rcases List.mem_cons.mp member with rfl | later
  · exact Nat.le_refl _
  · exact Nat.le_of_lt (List.rel_of_pairwise_cons sorted later)

/-- The same elements, as a set with sums and differences. -/
def toFinset (s : OrderedSet) : Finset ℕ := s.elems.toFinset

@[simp] theorem mem_toFinset {s : OrderedSet} {x : ℕ} : x ∈ s.toFinset ↔ x ∈ s := List.mem_toFinset

theorem card_toFinset (s : OrderedSet) : s.toFinset.card = s.elems.length :=
  List.toFinset_card_of_nodup s.nodup

@[simp] theorem not_mem_empty (x : ℕ) : x ∉ (∅ : OrderedSet) := by
  rw [mem_def]
  exact List.not_mem_nil

end OrderedSet

end Pyrrha.Lib

import Mathlib.Data.List.Basic

/-!
A pipeline of queues: items enter at some stage, move on to later stages and leave through the last
queue. The stages are listed from the entrance to the exit, and an item may skip a stage only while
this stage is empty. Then the items are always held in the order in which they entered.
-/

namespace Pyrrha.Lib

variable {κ α : Type*}

/-- What the pipeline holds, in the order in which it is to leave: the last queue, then the stages
from the exit back to the entrance. -/
def inOrder (last : List α) (content : κ → List α) (stages : List κ) : List α :=
  last ++ stages.reverse.flatMap content

variable {last last' : List α} {content content' : κ → List α}

theorem inOrder_congr {stages : List κ} (same : ∀ k ∈ stages, content' k = content k) :
    inOrder last content' stages = inOrder last content stages := by
  unfold inOrder
  rw [List.flatMap_congr fun k member => same k (List.mem_reverse.mp member)]

theorem inOrder_split (before after : List κ) (k : κ) :
    inOrder last content (before ++ k :: after) =
    last ++ after.reverse.flatMap content ++ content k ++ before.reverse.flatMap content := by
  simp [inOrder, List.append_assoc]

theorem flatMap_empty {stages : List κ} (empty : ∀ k ∈ stages, content k = []) :
    stages.reverse.flatMap content = [] := by
  rw [List.flatMap_eq_nil_iff]
  exact fun k member => empty k (List.mem_reverse.mp member)

theorem inOrder_empty {stages : List κ} (empty : ∀ k ∈ stages, content k = []) :
    inOrder last content stages = last := by
  rw [inOrder, flatMap_empty empty, List.append_nil]

/-- An item enters at a stage with nothing waiting before it. -/
theorem inOrder_enter {before after : List κ} {k : κ} {a : α} (empty : ∀ j ∈ before, content j = [])
    (skipped : ∀ j ∈ before, content' j = content j) (entered : content' k = content k ++ [a])
    (others : ∀ j ∈ after, content' j = content j) :
    inOrder last content' (before ++ k :: after) = inOrder last content (before ++ k :: after) ++
      [a] := by
  have empty' : ∀ j ∈ before, content' j = [] :=
    fun j member => (skipped j member).trans (empty j member)
  rw [inOrder_split, inOrder_split, flatMap_empty empty, flatMap_empty empty', entered,
    List.flatMap_congr fun j member => others j (List.mem_reverse.mp member)]
  simp [List.append_assoc]

/-- An item moves from a stage to a later one with nothing waiting in between. -/
theorem inOrder_move {before between after : List κ} {k j : κ} {a : α}
    (empty : ∀ i ∈ between, content i = []) (left : content k = a :: content' k)
    (entered : content' j = content j ++ [a]) (others₁ : ∀ i ∈ before, content' i = content i)
    (others₂ : ∀ i ∈ between, content' i = content i) (others₃ : ∀ i ∈ after, content' i =
      content i) :
    inOrder last content' (before ++ k :: (between ++ j :: after)) =
      inOrder last content (before ++ k :: (between ++ j :: after)) := by
  have empty' : ∀ i ∈ between, content' i = [] :=
    fun i member => (others₂ i member).trans (empty i member)
  have moved := List.flatMap_congr fun i member => others₃ i (List.mem_reverse.mp member)
  have stayed := List.flatMap_congr fun i member => others₁ i (List.mem_reverse.mp member)
  have gap := flatMap_empty empty
  have gap' := flatMap_empty empty'
  simp only [inOrder, List.reverse_append, List.reverse_cons, List.append_assoc,
    List.flatMap_append,
    List.flatMap_cons, moved, stayed, gap, gap', entered, left, List.nil_append, List.cons_append]

/-- An item moves from a stage to the last queue with nothing waiting in between. -/
theorem inOrder_finish {before after : List κ} {k : κ} {a : α} (empty : ∀ i ∈ after, content i = [])
    (left : content k = a :: content' k) (others : ∀ i ∈ before, content' i = content i)
    (others' : ∀ i ∈ after, content' i = content i) :
    inOrder (last ++ [a]) content' (before ++ k :: after) =
      inOrder last content (before ++ k :: after) := by
  have empty' : ∀ i ∈ after, content' i = [] :=
    fun i member => (others' i member).trans (empty i member)
  rw [inOrder_split, inOrder_split, flatMap_empty empty, flatMap_empty empty', left,
    List.flatMap_congr fun i member => others i (List.mem_reverse.mp member)]
  simp [List.append_assoc]

/-- The first item leaves. -/
theorem inOrder_leave (a : α) (stages : List κ) :
    inOrder (a :: last) content stages = a :: inOrder last content stages := rfl

end Pyrrha.Lib

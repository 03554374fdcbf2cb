import Mathlib.Combinatorics.SimpleGraph.Paths
import Mathlib.Data.List.FinRange
import Pyrrha.Lib.Update

/-!
The loops of Floyd and Warshall, run in place, that also note for each pair the last node which made
it shorter. The notes of one row lead back to the pairs that were never shortened: each note names a
node that was tried before the one that led to it.
-/

namespace Pyrrha.Lib

variable {n : ℕ}

/-- A distance and a note for each pair of nodes. -/
structure Hops (n : ℕ) where
  dist : Fin n → Fin n → ℕ
  hop : Fin n → Fin n → ℕ

namespace Hops

def relax (T : Hops n) (k i j : Fin n) : Hops n :=
  if T.dist i k + T.dist k j < T.dist i j then
    { dist := update₂ T.dist i j (T.dist i k + T.dist k j)
      hop := update₂ T.hop i j k }
  else T

/-- The two inner loops. -/
def round (T : Hops n) (k : Fin n) : Hops n :=
  (List.finRange n).foldl (fun T i => (List.finRange n).foldl (fun T j => T.relax k i j) T) T

def floyd (T : Hops n) : Hops n := (List.finRange n).foldl round T

variable {T₀ T U : Hops n} {k : Fin n}

/-! ### One round -/

def Same (T U : Hops n) (a b : Fin n) : Prop := U.dist a b = T.dist a b ∧ U.hop a b = T.hop a b

/-- What the round of `k` makes of a pair. -/
def Entry (T U : Hops n) (k a b : Fin n) : Prop :=
  (T.dist a b ≤ T.dist a k + T.dist k b ∧ Same T U a b) ∨
    (T.dist a k + T.dist k b < T.dist a b ∧ U.dist a b = T.dist a k + T.dist k b ∧ U.hop a b = k)

/-- In the middle of the round of `k`: every pair is as before or done. -/
def Between (T U : Hops n) (k : Fin n) : Prop := ∀ a b, Same T U a b ∨ Entry T U k a b

/-- The row and the column of `k` stay as they are, which is why the loops can run in place. -/
theorem entry_column {a : Fin n} (h : Same T U a k ∨ Entry T U k a k) : Same T U a k := by
  rcases h with same | ⟨-, same⟩ | ⟨less, -⟩
  · exact same
  · exact same
  · omega

theorem entry_row {b : Fin n} (h : Same T U k b ∨ Entry T U k k b) : Same T U k b := by
  rcases h with same | ⟨-, same⟩ | ⟨less, -⟩
  · exact same
  · exact same
  · omega

theorem relax_elsewhere (i j : Fin n) {a b : Fin n} (other : ¬(a = i ∧ b = j)) :
    Same U (U.relax k i j) a b := by
  unfold relax
  split
  · exact ⟨update₂_of_ne _ _ other, update₂_of_ne _ _ other⟩
  · exact ⟨rfl, rfl⟩

theorem relax_entry (h : Between T U k) (i j : Fin n) : Entry T (U.relax k i j) k i j := by
  have column := (entry_column (h i k)).1
  have row := (entry_row (h k j)).1
  unfold relax
  rw [column, row]
  rcases h i j with same | ⟨le, same⟩ | ⟨less, dist, hop⟩
  · split
    · rename_i shorter
      rw [same.1] at shorter
      exact .inr ⟨shorter, update₂_same _ _ _ _, update₂_same _ _ _ _⟩
    · rename_i longer
      rw [same.1, not_lt] at longer
      exact .inl ⟨longer, same⟩
  · rw [same.1, if_neg (Nat.not_lt.mpr le)]
    exact .inl ⟨le, same⟩
  · rw [dist, if_neg (lt_irrefl _)]
    exact .inr ⟨less, dist, hop⟩

theorem same_entry {V : Hops n} {a b : Fin n} (same : Same U V a b) (h : Entry T U k a b) :
    Entry T V k a b := by
  rcases h with ⟨le, before⟩ | ⟨less, dist, hop⟩
  · exact .inl ⟨le, same.1.trans before.1, same.2.trans before.2⟩
  · exact .inr ⟨less, same.1.trans dist, same.2.trans hop⟩

theorem relax_between (h : Between T U k) (i j : Fin n) : Between T (U.relax k i j) k := by
  intro a b
  by_cases here : a = i ∧ b = j
  · rw [here.1, here.2]
    exact .inr (relax_entry h i j)
  · have same := relax_elsewhere (U := U) (k := k) i j here
    exact (h a b).imp (fun before => ⟨same.1.trans before.1, same.2.trans before.2⟩)
      (same_entry same)

/-- A pair that is done stays done. -/
theorem relax_done (h : Between T U k) (i j : Fin n) {a b : Fin n} (done : Entry T U k a b) :
    Entry T (U.relax k i j) k a b := by
  by_cases here : a = i ∧ b = j
  · rw [here.1, here.2]
    exact relax_entry h i j
  · exact same_entry (relax_elsewhere i j here) done

/-- One row of the round. -/
theorem row_entry (h : Between T U k) (i : Fin n) (l : List (Fin n)) :
    Between T (l.foldl (fun U j => U.relax k i j) U) k ∧
      (∀ j ∈ l, Entry T (l.foldl (fun U j => U.relax k i j) U) k i j) ∧
      ∀ a b, Entry T U k a b → Entry T (l.foldl (fun U j => U.relax k i j) U) k a b := by
  induction l generalizing U with
  | nil => exact ⟨h, fun _ member => absurd member List.not_mem_nil, fun _ _ done => done⟩
  | cons j rest ih =>
    obtain ⟨between, entries, kept⟩ := ih (relax_between h i j)
    refine ⟨between, fun x member => ?_, fun a b done => kept a b (relax_done h i j done)⟩
    rcases List.mem_cons.mp member with rfl | later
    · exact kept i x (relax_entry h i x)
    · exact entries x later

theorem rows_entry (h : Between T U k) (l : List (Fin n)) :
    Between T (l.foldl (fun U i => (List.finRange n).foldl (fun U j => U.relax k i j) U) U) k ∧
      (∀ i ∈ l, ∀ j, Entry T
        (l.foldl (fun U i => (List.finRange n).foldl (fun U j => U.relax k i j) U) U) k i j) ∧
      ∀ a b, Entry T U k a b →
        Entry T (l.foldl (fun U i => (List.finRange n).foldl (fun U j => U.relax k i j) U) U)
          k a b := by
  induction l generalizing U with
  | nil => exact ⟨h, fun _ member => absurd member List.not_mem_nil, fun _ _ done => done⟩
  | cons i rest ih =>
    obtain ⟨here, row, old⟩ := row_entry h i (List.finRange n)
    obtain ⟨between, entries, kept⟩ := ih here
    refine ⟨between, fun x member => ?_, fun a b done => kept a b (old a b done)⟩
    rcases List.mem_cons.mp member with rfl | later
    · exact fun j => kept x j (row j (List.mem_finRange j))
    · exact entries x later

/-- A round relaxes all pairs as if at once. -/
theorem round_entry (T : Hops n) (k a b : Fin n) : Entry T (T.round k) k a b :=
  (rows_entry (fun _ _ => .inl ⟨rfl, rfl⟩) (List.finRange n)).2.1 a (List.mem_finRange a) b

/-! ### All rounds -/

/-- After the rounds of `done`, starting from `T₀`. -/
structure Settling (T₀ T : Hops n) (done : List (Fin n)) : Prop where
  le : ∀ a b, T.dist a b ≤ T₀.dist a b
  kept : ∀ a b, T.dist a b = T₀.dist a b → T.hop a b = T₀.hop a b
  triangle : ∀ k ∈ done, ∀ a b, T.dist a b ≤ T.dist a k + T.dist k b
  hop : ∀ a b, T.dist a b < T₀.dist a b → ∃ k ∈ done, T.hop a b = k ∧ k ≠ a ∧
    T.dist a k + T.dist k b ≤ T.dist a b ∧ (T.dist a k < T₀.dist a k → ∃ k' < k, T.hop a k = k')

theorem settling_start (T : Hops n) : Settling T T [] where
  le := fun _ _ => le_refl _
  kept := fun _ _ _ => rfl
  triangle := fun _ member => absurd member List.not_mem_nil
  hop := fun _ _ less => absurd less (lt_irrefl _)

theorem entry_le {a b : Fin n} (h : Entry T U k a b) :
    U.dist a b ≤ T.dist a b ∧ U.dist a b ≤ T.dist a k + T.dist k b := by
  rcases h with ⟨le, same, -⟩ | ⟨less, dist, -⟩ <;> omega

variable {done : List (Fin n)}

/-- A detour through an earlier node stays no shortcut. -/
theorem triangle_kept (h : Settling T₀ T done) (all : ∀ a b, Entry T U k a b) {x : Fin n}
    (member : x ∈ done) (a b : Fin n) : U.dist a b ≤ U.dist a x + U.dist x b := by
  have direct := h.triangle x member a b
  have toK := h.triangle x member a k
  have fromK := h.triangle x member k b
  have short := entry_le (all a b)
  rcases all a x with ⟨-, first, -⟩ | ⟨-, first, -⟩ <;> rcases all x b with
    ⟨-, second, -⟩ | ⟨-, second, -⟩ <;> omega

theorem triangle_new (all : ∀ a b, Entry T U k a b) (a b : Fin n) :
    U.dist a b ≤ U.dist a k + U.dist k b := by
  have column := (entry_column (.inr (all a k))).1
  have row := (entry_row (.inr (all k b))).1
  have short := entry_le (all a b)
  omega

/-- If the first leg of a noted detour became shorter, so would the pair itself. -/
theorem leg_kept (h : Settling T₀ T done) (all : ∀ a b, Entry T U k a b) {a b x : Fin n}
    (member : x ∈ done)
    (detour : T.dist a x + T.dist x b ≤ T.dist a b) (longer : T.dist a b ≤ T.dist a k +
      T.dist k b) :
    Same T U a x := by
  rcases all a x with ⟨-, same⟩ | ⟨less, -⟩
  · exact same
  · have fromK := h.triangle x member k b
    omega

theorem settling_round (h : Settling T₀ T done) (earlier : ∀ x ∈ done, x < k)
    (all : ∀ a b, Entry T U k a b) : Settling T₀ U (done ++ [k]) where
  le a b := (entry_le (all a b)).1.trans (h.le a b)
  kept a b same := by
    have before := h.le a b
    rcases all a b with ⟨-, dist, hop⟩ | ⟨less, dist, -⟩
    · exact hop.trans (h.kept a b (dist.symm.trans same))
    · omega
  triangle x member a b := by
    rcases List.mem_append.mp member with old | new
    · exact triangle_kept h all old a b
    · rw [List.mem_singleton.mp new]
      exact triangle_new all a b
  hop a b shorter := by
    rcases all a b with ⟨longer, dist, hop⟩ | ⟨less, dist, hop⟩
    · obtain ⟨x, member, note, apart, detour, back⟩ := h.hop a b (dist ▸ shorter)
      have first := leg_kept h all member detour longer
      have second := (entry_le (all x b)).1
      refine ⟨x, List.mem_append_left _ member, hop.trans note, apart, ?_, fun leg => ?_⟩
      · rw [first.1, dist]
        omega
      · rw [first.2]
        exact back (first.1 ▸ leg)
    · have column := entry_column (.inr (all a k))
      have row := entry_row (.inr (all k b))
      refine ⟨k, List.mem_append_right _ (List.mem_singleton_self k), hop, ?_, ?_, fun leg => ?_⟩
      · rintro rfl
        omega
      · rw [column.1, row.1, dist]
      · obtain ⟨x, member, note, -⟩ := h.hop a k (column.1 ▸ leg)
        exact ⟨x, earlier x member, column.2.trans note⟩

theorem floyd_settling (T : Hops n) (ks : List (Fin n)) (sorted : ks.Pairwise (· < ·)) :
    Settling T (ks.foldl round T) ks := by
  induction ks using List.reverseRecOn with
  | nil => exact settling_start T
  | append_singleton done k ih =>
    obtain ⟨before, -, earlier⟩ := List.pairwise_append.mp sorted
    rw [List.foldl_concat]
    exact settling_round (ih before)
      (fun x member => earlier x member k (List.mem_singleton_self k)) (round_entry _ k)

/-- What the loops leave behind. -/
theorem floyd_settled (T : Hops n) : Settling T T.floyd (List.finRange n) :=
  floyd_settling T _ (List.pairwise_lt_finRange n)

/-! ### Walks -/

variable {G : SimpleGraph (Fin n)} {a b : Fin n}

/-- The sum of the weights along a walk. -/
def weight (w : Fin n → Fin n → ℕ) {a b : Fin n} : G.Walk a b → ℕ
  | .nil => 0
  | @SimpleGraph.Walk.cons _ _ a c _ _ rest => w a c + weight w rest

/-- No walk is shorter than the distance of its ends. -/
theorem dist_le_weight (h : Settling T₀ T (List.finRange n)) (walk : G.Walk a b) (apart : a ≠ b) :
    T.dist a b ≤ weight T₀.dist walk := by
  induction walk with
  | nil => exact absurd rfl apart
  | @cons a c b edge rest ih =>
    have step := h.le a c
    rw [weight]
    by_cases last : c = b
    · subst last
      omega
    · have onward := ih last
      have detour := h.triangle c (List.mem_finRange c) a b
      omega

end Hops

end Pyrrha.Lib

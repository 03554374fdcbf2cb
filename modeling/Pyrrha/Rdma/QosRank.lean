import Mathlib.Data.List.GetD
import Mathlib.Data.List.Sort
import Mathlib.Data.Nat.Cast.Order.Field
import Mathlib.Data.Rat.Floor
import Pyrrha.Lib.Double
import Pyrrha.Lib.Indexed

/-!
The ranks of `QOS_PIFOQ`: `SplitRank` takes the points that split the message sizes into classes of
equal number, and `GetRank` looks a size up among them.
-/

namespace Pyrrha
open Lib

namespace Qos

/-- The vector that was read outside its range. -/
inductive OutOfRange where
  | metrics | rankSplit
  deriving DecidableEq, Repr

/-! ### SplitRank -/

/-- `uint32_t index = num*1.0*th/Settings::qos_rank_num`. The conversions of `uint32_t` to `double`
are exact. -/
def splitIndex (qosRankNum num th : ℕ) : ℕ := ⌊toDouble (toDouble (num * th) / qosRankNum)⌋₊

/-- `Settings::SplitRank`, with the points already in `rank_split`. -/
def splitRank (qosRankNum : ℕ) (rankSplit metrics : List ℕ) : Except OutOfRange (List ℕ) :=
  let sorted := metrics.mergeSort
  let num := metrics.length % 2 ^ 32
  (List.range' 1 (qosRankNum - 1)).foldlM
    (fun split th => (readAt .metrics sorted (splitIndex qosRankNum num th)).map fun m => split ++
      [m]) rankSplit

/-! ### GetRank -/

/-- The loop of `GetRank` from `rank` on, with `left` turns to go. -/
def scanRank (rankSplit : List ℕ) (curr : ℕ) : ℕ → ℕ → Except OutOfRange ℕ
  | 0, rank => .ok rank
  | left + 1, rank => do
    let low ← readAt .rankSplit rankSplit rank
    if low < curr then
      let high ← readAt .rankSplit rankSplit (rank + 1)
      if curr ≤ high then .ok rank else scanRank rankSplit curr left (rank + 1)
    else scanRank rankSplit curr left (rank + 1)

def getRank (qosRankNum : ℕ) (rankSplit : List ℕ) (curr : ℕ) : Except OutOfRange ℕ := do
  let first ← readAt .rankSplit rankSplit 0
  if curr ≤ first then .ok 0 else scanRank rankSplit curr (qosRankNum - 1) 0

/-! ### The index -/

section

variable {qosRankNum num : ℕ}

theorem quotient_nonneg (num th : ℕ) : (0 : ℚ) ≤ toDouble ((num : ℚ) * th) / qosRankNum :=
  div_nonneg (toDouble_nonneg (by positivity)) (Nat.cast_nonneg _)

theorem splitIndex_mono {a b : ℕ} (le : a ≤ b) : splitIndex qosRankNum num a ≤
    splitIndex qosRankNum num b := by
  have product : (num : ℚ) * a ≤ num * b :=
    mul_le_mul_of_nonneg_left (by exact_mod_cast le) (Nat.cast_nonneg num)
  have rounded := toDouble_mono (by positivity) product
  have ranks : (0 : ℚ) ≤ qosRankNum := Nat.cast_nonneg qosRankNum
  have quotient := div_le_div_of_nonneg_right rounded ranks
  exact Nat.floor_mono (toDouble_mono (quotient_nonneg num a) quotient)

theorem splitIndex_lt {th : ℕ} (fits : qosRankNum < 2 ^ 32) (below : th < qosRankNum)
    (pos : 0 < num) : splitIndex qosRankNum num th < num := by
  have rankPos : (0 : ℚ) < qosRankNum := by exact_mod_cast Nat.zero_lt_of_lt below
  have numPos : (0 : ℚ) < num := by exact_mod_cast pos
  have product := toDouble_le (x := (num : ℚ) * th) (by positivity)
  have quotient := toDouble_le (@quotient_nonneg qosRankNum num th)
  have step : (th : ℚ) ≤ qosRankNum - 1 := by
    have succ : ((th + 1 : ℕ) : ℚ) ≤ qosRankNum := by exact_mod_cast below
    push_cast at succ
    linarith
  have small : (qosRankNum : ℚ) ≤ 4294967296 := by exact_mod_cast fits.le
  -- (1 - 1 / rank_num) * (1 + 2⁻⁵³)² is below one
  have room : ((qosRankNum : ℚ) - 1) * (1 + 1 / 2 ^ 53) * (1 + 1 / 2 ^ 53) < qosRankNum := by
    norm_num
    linarith
  have scaled : (num : ℚ) * th * (1 + 1 / 2 ^ 53) * (1 + 1 / 2 ^ 53) < num * qosRankNum := by
    have shared : (th : ℚ) * ((1 + 1 / 2 ^ 53) * (1 + 1 / 2 ^ 53)) ≤
        (qosRankNum - 1) * ((1 + 1 / 2 ^ 53) * (1 + 1 / 2 ^ 53)) :=
          mul_le_mul_of_nonneg_right step (by norm_num)
    have whole := mul_lt_mul_of_pos_left room numPos
    have part := mul_le_mul_of_nonneg_left shared numPos.le
    linarith
  refine (Nat.floor_lt (toDouble_nonneg (quotient_nonneg num th))).mpr (lt_of_le_of_lt quotient ?_)
  rw [div_mul_eq_mul_div, div_lt_iff₀ rankPos]
  refine lt_of_le_of_lt (mul_le_mul_of_nonneg_right product (by norm_num)) scaled

/-- While the product has at most 53 bits, the index is the quotient of the integers. -/
theorem splitIndex_exact {th : ℕ} (rankPos : 0 < qosRankNum) (fits : num * th < 2 ^ 53) :
    splitIndex qosRankNum num th = num * th / qosRankNum := by
  have whole : toDouble ((num : ℚ) * th) = ((num * th : ℕ) : ℚ) := by
    rw [← toDouble_nat fits]
    push_cast
    rfl
  have positive : (0 : ℚ) < qosRankNum := by exact_mod_cast rankPos
  unfold splitIndex
  rw [whole]
  generalize num * th = a at fits ⊢
  have nonneg : (0 : ℚ) ≤ (a : ℚ) / qosRankNum := by positivity
  have floor : a / qosRankNum < 2 ^ 53 := (Nat.div_le_self _ _).trans_lt fits
  refine (Nat.floor_eq_iff (toDouble_nonneg nonneg)).mpr ⟨?_, ?_⟩
  · have down := toDouble_mono (Nat.cast_nonneg _) (@Nat.cast_div_le ℚ _ _ _ a qosRankNum)
    rwa [toDouble_nat floor] at down
  · have up := toDouble_le nonneg
    have rest : (a : ℚ) + 1 ≤ ((a / qosRankNum : ℕ) + 1) * qosRankNum := by
      have integers : a + 1 ≤ (a / qosRankNum + 1) * qosRankNum := by
        have split := Nat.div_add_mod a qosRankNum
        have small := Nat.mod_lt a rankPos
        rw [Nat.add_mul, Nat.one_mul, Nat.mul_comm]
        omega
      exact_mod_cast integers
    refine lt_of_le_of_lt up ?_
    rw [div_mul_eq_mul_div, div_lt_iff₀ positive]
    have tiny : (a : ℚ) < 9007199254740992 := by exact_mod_cast fits
    norm_num
    linarith

end

/-! ### The split points -/

theorem foldlM_readAt {out : OutOfRange} {v : List ℕ} {index : ℕ → ℕ} {turns : List ℕ}
    {acc : List ℕ} (inside : ∀ th ∈ turns, index th < v.length) :
    turns.foldlM (fun split th => (readAt out v (index th)).map fun m => split ++ [m]) acc =
      .ok (acc ++ turns.map fun th => v.getD (index th) 0) := by
  induction turns generalizing acc with
  | nil => rw [List.map_nil, List.append_nil]; rfl
  | cons th rest ih =>
    have here := inside th List.mem_cons_self
    have onward := @ih (acc ++ [v.getD (index th) 0]) fun x member =>
      inside x (List.mem_cons_of_mem th member)
    rw [List.append_assoc, List.singleton_append] at onward
    rw [List.foldlM_cons, readAt_inside here, List.map_cons, ← onward,
      List.getD_eq_getElem v 0 here]
    rfl

theorem getD_mono {v : List ℕ} (sorted : v.Pairwise (· ≤ ·)) {i j : ℕ} (le : i ≤ j)
    (inside : j < v.length) : v.getD i 0 ≤ v.getD j 0 := by
  rw [List.getD_eq_getElem v 0 (le.trans_lt inside), List.getD_eq_getElem v 0 inside]
  rcases Nat.lt_or_eq_of_le le with less | rfl
  · exact List.pairwise_iff_getElem.mp sorted i j _ inside less
  · exact le_refl _

theorem sorted_mergeSort (metrics : List ℕ) : metrics.mergeSort.Pairwise (· ≤ ·) := by
  simpa using @List.pairwise_mergeSort ℕ (fun a b => decide (a ≤ b)) (by simp; omega) (by simp; omega) metrics

theorem splitRank_ok {qosRankNum : ℕ} {metrics : List ℕ} (fits : qosRankNum < 2 ^ 32)
    (filled : metrics ≠ []) :
    ∃ split, splitRank qosRankNum [] metrics = .ok split ∧ split.length = qosRankNum - 1 ∧
    split.Pairwise (· ≤ ·) := by
  have inside : ∀ th ∈ List.range' 1 (qosRankNum - 1),
      splitIndex qosRankNum (metrics.length % 2 ^ 32) th < metrics.mergeSort.length := by
    intro th member
    have below := List.mem_range'_1.mp member
    have pos : 0 < metrics.length := List.length_pos_iff.mpr filled
    rw [List.length_mergeSort]
    rcases Nat.eq_zero_or_pos (metrics.length % 2 ^ 32) with zero | num
    · rw [zero, splitIndex, Nat.cast_zero, zero_mul, toDouble_zero, zero_div, toDouble_zero,
        Nat.floor_zero]
      exact pos
    · exact (splitIndex_lt fits (by omega) num).trans_le (Nat.mod_le _ _)
  refine ⟨_, foldlM_readAt inside, ?_, ?_⟩
  · rw [List.nil_append, List.length_map, List.length_range']
  · rw [List.nil_append]
    refine List.pairwise_map.mpr ?_
    refine List.Pairwise.imp_of_mem ?_ (List.pairwise_lt_range' (s := 1) (n := qosRankNum - 1))
    exact fun _ later less => getD_mono (sorted_mergeSort metrics) (splitIndex_mono less.le)
      (inside _ later)

/-! ### The rank -/

variable {split : List ℕ} {x : ℕ}

/-- Between two neighbouring points, the number of smaller ones is that of the lower one and those
before it. -/
theorem countP_between (sorted : split.Pairwise (· ≤ ·)) {r : ℕ} (inside : r + 1 < split.length)
    (low : split[r] < x) (high : x ≤ split[r + 1]) : split.countP (· < x) = r + 1 := by
  have order := List.pairwise_iff_getElem.mp sorted
  have before : (split.take (r + 1)).countP (· < x) = r + 1 := by
    rw [List.countP_eq_length.mpr, List.length_take, Nat.min_eq_left inside.le]
    intro a member
    obtain ⟨i, hi, rfl⟩ := List.mem_take_iff_getElem.mp member
    rcases Nat.lt_or_eq_of_le (show i ≤ r by omega) with less | same
    · have le := order i r (by omega) (by omega) less
      exact decide_eq_true (by omega)
    · exact decide_eq_true ((getElem_congr_idx same).trans_lt low)
  have after : (split.drop (r + 1)).countP (· < x) = 0 := by
    rw [List.countP_eq_zero]
    intro a member
    obtain ⟨i, hi, rfl⟩ := List.mem_drop_iff_getElem.mp member
    rcases Nat.eq_zero_or_pos i with rfl | pos
    · simpa using high
    · have le := order (r + 1) (r + 1 + i) inside (by omega) (by omega)
      simpa using high.trans le
  rw [← List.take_append_drop (r + 1) split, List.countP_append, before, after]

/-- Above the point at `rank`, the loop returns the index of the point below `x`, or leaves the
vector. -/
theorem scanRank_cases {left rank : ℕ} (length : split.length = rank + left)
    (low : split.getD rank 0 < x)
    (inside : 0 < left) : scanRank split x left rank = .error .rankSplit ∨ ∃ r, ∃ h :
    r + 1 < split.length, scanRank split x left rank = .ok r ∧ split[r] < x ∧ x ≤ split[r + 1] := by
  induction left generalizing rank with
  | zero => omega
  | succ left ih =>
    have here : rank < split.length := by omega
    rw [List.getD_eq_getElem split 0 here] at low
    have turn : scanRank split x (left + 1) rank = (do
        let high ← readAt OutOfRange.rankSplit split (rank + 1)
        if x ≤ high then .ok rank else scanRank split x left (rank + 1)) := by
      rw [scanRank, readAt_inside here]
      exact if_pos low
    rw [turn]
    rcases Nat.eq_zero_or_pos left with rfl | more
    · rw [readAt_outside (by omega)]
      exact .inl rfl
    · have next : rank + 1 < split.length := by omega
      rw [readAt_inside next]
      by_cases found : x ≤ split[rank + 1]
      · exact .inr ⟨rank, next, if_pos found, low, found⟩
      · have onward := ih (show split.length = rank + 1 + left by omega)
          ((List.getD_eq_getElem split 0 next).trans_lt (Nat.not_le.mp found)) more
        have continues : (do
            let high ← Except.ok split[rank + 1]
            if x ≤ high then Except.ok rank else scanRank split x left (rank + 1) :
              Except OutOfRange ℕ) =
            scanRank split x left (rank + 1) := if_neg found
        rw [continues]
        exact onward

/-- With the points of `SplitRank`, `GetRank` reads inside the vector and returns the number of
smaller points just for the sizes up to the first point: above it the loop returns one less, and
above the last point it reads the point after it. -/
theorem getRank_right_iff {qosRankNum : ℕ} {metrics : List ℕ} (ranks : 2 ≤ qosRankNum)
    (fits : qosRankNum < 2 ^ 32)
    (filled : metrics ≠ []) : ∃ split first, splitRank qosRankNum [] metrics = .ok split ∧
    split.head? = some first ∧
      ∀ x, getRank qosRankNum split x = .ok (split.countP (· < x)) ↔ x ≤ first := by
  obtain ⟨split, run, length, sorted⟩ := splitRank_ok fits filled
  obtain ⟨first, rest, rfl⟩ := List.exists_cons_of_length_pos (show 0 < split.length by omega)
  refine ⟨first :: rest, first, run, rfl, fun x => ?_⟩
  unfold getRank
  rw [readAt_inside (Nat.succ_pos _)]
  by_cases low : x ≤ first
  · have none : (first :: rest).countP (· < x) = 0 := by
      rw [List.countP_eq_zero]
      intro a member
      rcases List.mem_cons.mp member with rfl | later
      · simpa using low
      · simpa using low.trans ((List.pairwise_cons.mp sorted).1 a later)
    rw [none]
    exact iff_of_true (if_pos low) low
  · refine iff_of_false (fun right => ?_) low
    have scanned : scanRank (first :: rest) x (qosRankNum - 1) 0 =
        .ok ((first :: rest).countP (· < x)) :=
      (if_neg low).symm.trans right
    have above : (first :: rest).getD 0 0 < x := Nat.not_le.mp low
    rcases scanRank_cases (show (first :: rest).length = 0 + (qosRankNum - 1) by omega) above
        (by omega) with
      outside | ⟨r, inside, found, below, above⟩
    · rw [outside] at scanned
      cases scanned
    · rw [found, countP_between sorted inside below above] at scanned
      have off := Except.ok.inj scanned
      omega

theorem getRank_right_ten : ∃ split first, splitRank 10 [] [5, 3] = .ok split ∧
    split.head? = some first ∧
    ∀ x, getRank 10 split x = .ok (split.countP (· < x)) ↔ x ≤ first :=
  @getRank_right_iff 10 [5, 3] (by decide) (by decide) (List.cons_ne_nil 5 [3])

/-- Three classes of three sizes: 25 lies above the point 20 and gets the rank of the sizes up to
20. -/
theorem getRank_low : ∃ split, splitRank 3 [] [10, 20, 30] = .ok split ∧ split.countP (· < 25) = 1 ∧
    getRank 3 split 25 = .ok 0 := by
  refine ⟨[20, 30], ?_, by decide, by decide⟩
  have sorted : [10, 20, 30].mergeSort = [10, 20, 30] := List.mergeSort_of_pairwise (by decide)
  have one : splitIndex 3 3 1 = 1 := splitIndex_exact (by decide) (by decide)
  have two : splitIndex 3 3 2 = 2 := splitIndex_exact (by decide) (by decide)
  unfold splitRank
  rw [sorted]
  simp [List.range', List.foldlM, one, two, readAt, Except.map, bind, Except.bind, pure,
    Except.pure]

end Qos

end Pyrrha

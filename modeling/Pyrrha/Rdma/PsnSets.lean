import Mathlib.Algebra.Order.BigOperators.Group.Finset
import Mathlib.Order.Interval.Finset.Nat
import Pyrrha.Rdma.Completion
import Pyrrha.Rdma.Flight

/-!
The packets of a message as sets: the bytes they carry, and what `GetOnTheFly` counts for them.
-/

namespace Pyrrha
open Lib

namespace Rdma

variable {cfg : Config}

def Config.lastStart (cfg : Config) : ℕ := (cfg.size - 1) / cfg.mtu * cfg.mtu

theorem lastStart_aligned (some_bytes : 0 < cfg.size) : Aligned cfg cfg.lastStart := by
  have le : cfg.lastStart ≤ cfg.size - 1 := Nat.div_mul_le_self _ _
  exact ⟨Nat.dvd_mul_left _ _, by omega⟩

theorem lastEnd_start (some_bytes : 0 < cfg.size) : cfg.lastEnd = cfg.lastStart + cfg.mtu := by
  have more : cfg.size + cfg.mtu - 1 = cfg.size - 1 + cfg.mtu := by omega
  unfold Config.lastEnd Config.lastStart
  rw [more, Nat.add_div_right _ cfg.mtu_pos, Nat.succ_mul]

theorem lastEnd_lt (cfg : Config) : cfg.lastEnd < cfg.size + cfg.mtu := by
  have pos := cfg.mtu_pos
  have le : cfg.lastEnd ≤ cfg.size + cfg.mtu - 1 := Nat.div_mul_le_self _ _
  omega

theorem last_aligned {q : ℕ} (aligned : Aligned cfg q) (ends : cfg.size ≤ q + cfg.mtu) :
    q = cfg.lastStart := by
  have some_bytes : 0 < cfg.size := (Nat.zero_le q).trans_lt aligned.2
  have le := aligned_lastEnd aligned
  rw [lastEnd_start some_bytes] at le
  obtain ⟨⟨i, rfl⟩, lt⟩ := aligned
  obtain ⟨⟨j, start⟩, below⟩ := lastStart_aligned some_bytes
  rw [start] at le below ⊢
  congr 1
  by_contra other
  have more : i + 1 ≤ j := by
    have := Nat.le_of_mul_le_mul_left (show cfg.mtu * i ≤ cfg.mtu * j by omega) cfg.mtu_pos
    omega
  have scaled := Nat.mul_le_mul_left cfg.mtu more
  rw [Nat.mul_succ] at scaled
  omega

theorem lastStart_rest (short : cfg.size % cfg.mtu ≠ 0) :
    cfg.size - cfg.size % cfg.mtu = cfg.lastStart := by
  have split := Nat.div_add_mod cfg.size cfg.mtu
  have lt := Nat.mod_lt cfg.size cfg.mtu_pos
  refine last_aligned ⟨⟨cfg.size / cfg.mtu, by omega⟩, by omega⟩ (by omega)

theorem payloadAt_lastStart (short : cfg.size % cfg.mtu ≠ 0) :
    cfg.payloadAt cfg.lastStart = cfg.size % cfg.mtu := by
  have start := lastStart_rest short
  have le := Nat.mod_le cfg.size cfg.mtu
  have lt := Nat.mod_lt cfg.size cfg.mtu_pos
  unfold Config.payloadAt
  omega

/-! ### Bytes -/

/-- The bytes of the packet that starts at `q`. -/
def Config.bytesOf (cfg : Config) (q : ℕ) : Finset ℕ := Finset.Ico q (q + cfg.payloadAt q)

theorem card_bytesOf (q : ℕ) : (cfg.bytesOf q).card = cfg.payloadAt q := by
  rw [Config.bytesOf, Nat.card_Ico, Nat.add_sub_cancel_left]

theorem mem_bytesOf {q b : ℕ} : b ∈ cfg.bytesOf q ↔ q ≤ b ∧ b < q + cfg.mtu ∧ b < cfg.size := by
  rw [Config.bytesOf, Finset.mem_Ico, Config.payloadAt]
  omega

theorem bytesOf_disjoint {q r : ℕ} (hq : cfg.mtu ∣ q) (hr : cfg.mtu ∣ r) (other : q ≠ r) :
    Disjoint (cfg.bytesOf q) (cfg.bytesOf r) := by
  rw [Finset.disjoint_left]
  intro b inQ inR
  obtain ⟨i, rfl⟩ := hq
  obtain ⟨j, rfl⟩ := hr
  rw [mem_bytesOf] at inQ inR
  rcases Nat.lt_or_gt_of_ne fun same => other (congrArg _ same) with lt | gt
  · have scaled := Nat.mul_le_mul_left cfg.mtu (Nat.succ_le_of_lt lt)
    rw [Nat.mul_succ] at scaled
    omega
  · have scaled := Nat.mul_le_mul_left cfg.mtu (Nat.succ_le_of_lt gt)
    rw [Nat.mul_succ] at scaled
    omega

theorem sum_payloadAt {X : Finset ℕ} (aligned : ∀ q ∈ X, cfg.mtu ∣ q) :
    ∑ q ∈ X, cfg.payloadAt q = (X.biUnion cfg.bytesOf).card := by
  have apart : (X : Set ℕ).PairwiseDisjoint cfg.bytesOf := fun q hq r hr other =>
    bytesOf_disjoint (aligned q hq) (aligned r hr) other
  rw [Finset.card_biUnion apart]
  exact Finset.sum_congr rfl fun q _ => (card_bytesOf q).symm

theorem sum_payloadAt_le {X : Finset ℕ} (aligned : ∀ q ∈ X, cfg.mtu ∣ q) :
    ∑ q ∈ X, cfg.payloadAt q ≤ cfg.size := by
  rw [sum_payloadAt aligned, ← Finset.card_range cfg.size]
  refine Finset.card_le_card fun b member => ?_
  obtain ⟨q, _, inside⟩ := Finset.mem_biUnion.mp member
  exact Finset.mem_range.mpr (mem_bytesOf.mp inside).2.2

/-! ### What is counted -/

/-- What a packet counts in `GetOnTheFly`: all but the last one are full. -/
def Config.counted (cfg : Config) (q : ℕ) : ℕ :=
  if cfg.size % cfg.mtu ≠ 0 ∧ q = cfg.lastStart then cfg.size % cfg.mtu else cfg.mtu

theorem payloadAt_le_counted (q : ℕ) : cfg.payloadAt q ≤ cfg.counted q := by
  unfold Config.counted
  split
  · rename_i last
    rw [last.2, payloadAt_lastStart last.1]
  · exact Nat.min_le_left _ _

theorem counted_aligned {q : ℕ} (aligned : Aligned cfg q) : cfg.counted q = cfg.payloadAt q := by
  unfold Config.counted
  split
  · rename_i last
    rw [last.2, payloadAt_lastStart last.1]
  · rename_i other
    have ends : q + cfg.mtu ≤ cfg.size := by
      by_contra short
      have last := last_aligned aligned (by omega)
      refine other ⟨fun full => short ?_, last⟩
      obtain ⟨i, rfl⟩ := aligned.1
      obtain ⟨j, same⟩ := Nat.dvd_of_mod_eq_zero full
      have lt := aligned.2
      rw [same] at lt ⊢
      have scaled := Nat.mul_le_mul_left cfg.mtu (Nat.succ_le_of_lt (Nat.lt_of_mul_lt_mul_left lt))
      rw [Nat.mul_succ] at scaled
      exact scaled
    unfold Config.payloadAt
    omega

theorem psnBytes_counted (psns : OrderedSet) : SndOperation.psnBytes cfg psns =
    (∑ q ∈ psns.toFinset, cfg.counted q) % 2 ^ 32 := by
  have card := psns.card_toFinset
  unfold SndOperation.psnBytes
  dsimp only
  split
  · rename_i short
    rw [lastStart_rest short]
    unfold add32
    split
    · rename_i member
      have first : cfg.counted cfg.lastStart = cfg.size % cfg.mtu := if_pos ⟨short, rfl⟩
      have others : ∑ q ∈ psns.toFinset.erase cfg.lastStart, cfg.counted q =
          (psns.elems.length - 1) * cfg.mtu := by
        rw [← card, ← Finset.card_erase_of_mem (OrderedSet.mem_toFinset.mpr member)]
        refine Finset.sum_const_nat fun q inside => if_neg fun last => ?_
        exact Finset.ne_of_mem_erase inside last.2
      have some_psn : 1 ≤ psns.elems.length := List.length_pos_of_mem member
      rw [← Finset.add_sum_erase _ _ (OrderedSet.mem_toFinset.mpr member), first, others]
      have parts : psns.elems.length + 2 ^ 32 - 1 = psns.elems.length - 1 + 2 ^ 32 := by omega
      rw [parts, Nat.add_mul, Nat.mul_comm (2 ^ 32), Nat.add_right_comm, Nat.add_mul_mod_self_right,
        Nat.add_comm]
    · rename_i other
      have all : ∑ q ∈ psns.toFinset, cfg.counted q = psns.elems.length * cfg.mtu := by
        rw [← card]
        refine Finset.sum_const_nat fun q inside => if_neg fun last => other ?_
        rw [← last.2]
        exact OrderedSet.mem_toFinset.mp inside
      have parts : (psns.elems.length + 2 ^ 32 - 1) * cfg.mtu + cfg.mtu =
          psns.elems.length * cfg.mtu + cfg.mtu * 2 ^ 32 := by
        have one : psns.elems.length + 2 ^ 32 = psns.elems.length + 2 ^ 32 - 1 + 1 := by omega
        rw [← Nat.succ_mul, Nat.succ_eq_add_one, ← one, Nat.add_mul, Nat.mul_comm cfg.mtu]
      rw [parts, Nat.add_mul_mod_self_right, all]
  · rename_i whole
    have all : ∑ q ∈ psns.toFinset, cfg.counted q = psns.elems.length * cfg.mtu := by
      rw [← card]
      exact Finset.sum_const_nat fun q _ => if_neg fun last => whole last.1
    rw [all]

end Rdma

end Pyrrha

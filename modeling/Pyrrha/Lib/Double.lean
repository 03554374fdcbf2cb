import Mathlib.Data.Int.Log
import Mathlib.Data.Rat.Floor
import Mathlib.Tactic.Linarith

/-!
Rounding to `double`, to nearest and ties to even, for numbers that are not negative and whose
exponents are in range: neither overflow nor subnormal numbers.
-/

namespace Pyrrha.Lib

/-! ### To the nearest integer -/

def nearest (x : ℚ) : ℤ :=
  if x - ⌊x⌋ < 1 / 2 then ⌊x⌋ else if 1 / 2 < x - ⌊x⌋ then ⌊x⌋ + 1 else ⌊x⌋ + ⌊x⌋ % 2

theorem floor_le_nearest (x : ℚ) : ⌊x⌋ ≤ nearest x := by
  unfold nearest
  split
  · exact le_refl _
  · split <;> omega

theorem nearest_le_ceil (x : ℚ) : nearest x ≤ ⌊x⌋ + 1 := by
  unfold nearest
  split
  · omega
  · split <;> omega

theorem nearest_int (k : ℤ) : nearest k = k := by
  unfold nearest
  rw [Int.floor_intCast, sub_self, if_pos (by norm_num)]

theorem nearest_mono {x y : ℚ} (le : x ≤ y) : nearest x ≤ nearest y := by
  rcases lt_or_eq_of_le (Int.floor_mono le) with less | same
  · have up := nearest_le_ceil x
    have down := floor_le_nearest y
    omega
  · have rest : x - ⌊x⌋ ≤ y - ⌊y⌋ := by
      rw [same]
      linarith
    unfold nearest
    rw [← same] at rest ⊢
    split
    · split
      · exact le_refl _
      · split <;> omega
    · rename_i half
      rw [if_neg fun less => half (lt_of_le_of_lt rest less)]
      split
      · rename_i more
        rw [if_pos (lt_of_lt_of_le more rest)]
      · split <;> omega

theorem nearest_error (x : ℚ) : (nearest x : ℚ) ≤ x + 1 / 2 := by
  have floor := Int.floor_le x
  unfold nearest
  split
  · linarith
  · rename_i half
    rw [not_lt] at half
    split
    · rename_i more
      push_cast
      linarith
    · have even : ((⌊x⌋ % 2 : ℤ) : ℚ) ≤ 1 := by exact_mod_cast (show ⌊x⌋ % 2 ≤ 1 by omega)
      push_cast at even ⊢
      linarith

/-! ### To 53 bits -/

/-- The value of the last bit of a `double` next to `x`. -/
def place (x : ℚ) : ℚ := 2 ^ (Int.log 2 x - 52)

def toDouble (x : ℚ) : ℚ := nearest (x / place x) * place x

theorem place_pos (x : ℚ) : 0 < place x := zpow_pos two_pos _

theorem place_scale (x : ℚ) : place x * 2 ^ (52 : ℤ) = 2 ^ Int.log 2 x := by
  unfold place
  rw [← zpow_add₀ two_ne_zero, sub_add_cancel]

/-- The leading bit of `x` is 52 places above the last one. -/
theorem place_le {x : ℚ} (pos : 0 < x) : place x * 2 ^ (52 : ℤ) ≤ x ∧
    x < place x * 2 ^ (53 : ℤ) := by
  have low := Int.zpow_log_le_self (b := 2) one_lt_two pos
  have high := Int.lt_zpow_succ_log_self (b := 2) one_lt_two x
  refine ⟨(place_scale x).trans_le (by exact_mod_cast low), ?_⟩
  have next : place x * 2 ^ (53 : ℤ) = 2 ^ (Int.log 2 x + 1) := by
    unfold place
    rw [← zpow_add₀ two_ne_zero]
    congr 1
    omega
  rw [next]
  exact_mod_cast high

theorem toDouble_zero : toDouble 0 = 0 := by
  unfold toDouble
  rw [zero_div, show (0 : ℚ) = ((0 : ℤ) : ℚ) from rfl, nearest_int, Int.cast_zero, zero_mul]

theorem toDouble_nonneg {x : ℚ} (nonneg : 0 ≤ x) : 0 ≤ toDouble x := by
  have scaled : 0 ≤ x / place x := div_nonneg nonneg (place_pos x).le
  have down := floor_le_nearest (x / place x)
  have floor : 0 ≤ ⌊x / place x⌋ := Int.floor_nonneg.mpr scaled
  have rounded : (0 : ℚ) ≤ (nearest (x / place x) : ℚ) := by exact_mod_cast floor.trans down
  exact mul_nonneg rounded (place_pos x).le

/-- Rounding is monotone, also from one exponent to the next. -/
theorem toDouble_mono {x y : ℚ} (nonneg : 0 ≤ x) (le : x ≤ y) : toDouble x ≤ toDouble y := by
  rcases eq_or_lt_of_le nonneg with rfl | pos
  · rw [toDouble_zero]
    exact toDouble_nonneg le
  · have ypos := lt_of_lt_of_le pos le
    rcases eq_or_lt_of_le (Int.log_mono_right (b := 2) pos le) with same | less
    · have places : place x = place y := by rw [place, place, same]
      have scaled : x / place x ≤ y / place x := div_le_div_of_nonneg_right le (place_pos x).le
      unfold toDouble
      rw [← places]
      have rounded : (nearest (x / place x) : ℚ) ≤ nearest (y / place x) := by
        exact_mod_cast nearest_mono scaled
      exact mul_le_mul_of_nonneg_right rounded (place_pos x).le
    · -- `x` rounds to at most the power of two above it, `y` to at least the one below it
      have up : toDouble x ≤ 2 ^ (Int.log 2 x + 1) := by
        have scaled : x / place x ≤ ((2 ^ 53 : ℤ) : ℚ) := by
          rw [div_le_iff₀ (place_pos x), mul_comm]
          exact (place_le pos).2.le
        have rounded : (nearest (x / place x) : ℚ) ≤ 2 ^ (53 : ℤ) := by
          have mono := nearest_mono scaled
          rw [nearest_int] at mono
          exact_mod_cast mono
        have bound := mul_le_mul_of_nonneg_right rounded (place_pos x).le
        refine bound.trans_eq ?_
        unfold place
        rw [← zpow_add₀ two_ne_zero]
        congr 1
        omega
      have down : (2 : ℚ) ^ Int.log 2 y ≤ toDouble y := by
        have scaled : ((2 ^ 52 : ℤ) : ℚ) ≤ y / place y := by
          rw [le_div_iff₀ (place_pos y), mul_comm]
          exact (place_le ypos).1
        have rounded : (2 : ℚ) ^ (52 : ℤ) ≤ (nearest (y / place y) : ℚ) := by
          have mono := nearest_mono scaled
          rw [nearest_int] at mono
          exact_mod_cast mono
        have bound := mul_le_mul_of_nonneg_right rounded (place_pos y).le
        rw [mul_comm, place_scale] at bound
        exact bound
      exact up.trans ((zpow_le_zpow_right₀ one_le_two (by omega)).trans down)

/-- The relative error upwards. -/
theorem toDouble_le {x : ℚ} (nonneg : 0 ≤ x) : toDouble x ≤ x * (1 + 1 / 2 ^ 53) := by
  rcases eq_or_lt_of_le nonneg with rfl | pos
  · rw [toDouble_zero, zero_mul]
  · have error := nearest_error (x / place x)
    have bound := mul_le_mul_of_nonneg_right error (place_pos x).le
    have low := (place_le pos).1
    rw [add_mul, div_mul_cancel₀ x (place_pos x).ne'] at bound
    refine bound.trans ?_
    norm_num at low ⊢
    linarith

/-- A natural number of at most 53 bits is its own `double`. -/
theorem toDouble_nat {k : ℕ} (fits : k < 2 ^ 53) : toDouble k = k := by
  rcases Nat.eq_zero_or_pos k with rfl | pos
  · exact_mod_cast toDouble_zero
  · have kpos : (0 : ℚ) < k := by exact_mod_cast pos
    have exponent : Int.log 2 (k : ℚ) < 53 := by
      have low := Int.zpow_log_le_self (b := 2) one_lt_two kpos
      by_contra large
      have power : (2 : ℚ) ^ (53 : ℤ) ≤ 2 ^ Int.log 2 (k : ℚ) :=
        zpow_le_zpow_right₀ one_le_two (by omega)
      have small : (k : ℚ) < 2 ^ (53 : ℤ) := by exact_mod_cast fits
      have reached : (2 : ℚ) ^ (53 : ℤ) ≤ k := power.trans (by exact_mod_cast low)
      linarith
    obtain ⟨shift, same⟩ : ∃ shift : ℕ, Int.log 2 (k : ℚ) - 52 = -(shift : ℤ) :=
      ⟨(52 - Int.log 2 (k : ℚ)).toNat, by omega⟩
    have whole : (k : ℚ) / place k = ((k * 2 ^ shift : ℤ) : ℚ) := by
      unfold place
      rw [same, zpow_neg, zpow_natCast, div_inv_eq_mul]
      push_cast
      rfl
    unfold toDouble
    rw [whole, nearest_int, ← whole, div_mul_cancel₀ _ (place_pos _).ne']

end Pyrrha.Lib

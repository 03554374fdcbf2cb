import Mathlib.Algebra.Order.Group.Unbundled.Abs
import Mathlib.Algebra.Order.Group.Unbundled.Int
import Pyrrha.Lib.Wrapping
import Pyrrha.Wire.Headers

/-!
What `IntHop` tells about a port: the bit-fields over the words of `buf`, `Set`, `PushHop` and the
readings that the sender takes. `multi` is `IntHop::multi`.
-/

namespace Pyrrha
open Lib

namespace Wire

namespace IntHop

abbrev timeWidth : ℕ := 24
abbrev bytesWidth : ℕ := 20
abbrev qlenWidth : ℕ := 17
abbrev lineRateWidth : ℕ := 64 - timeWidth - bytesWidth - qlenWidth

def byteUnit : ℕ := 128
def qlenUnit : ℕ := 80

def lineRateValues : List ℕ :=
  [10000000000, 20000000000, 25000000000, 40000000000, 50000000000, 100000000000, 200000000000,
    400000000000, 0, 0]

/-! ### The bit-fields -/

def word (h : IntHop) : BitVec 64 := h.buf1 ++ h.buf0

/-- The first bit-field takes the lowest bits. -/
def lineRate (h : IntHop) : BitVec lineRateWidth := h.word.extractLsb' 0 lineRateWidth
def time (h : IntHop) : BitVec timeWidth := h.word.extractLsb' lineRateWidth timeWidth
def bytes (h : IntHop) : BitVec bytesWidth :=
  h.word.extractLsb' (lineRateWidth + timeWidth) bytesWidth
def qlen (h : IntHop) : BitVec qlenWidth :=
  h.word.extractLsb' (lineRateWidth + timeWidth + bytesWidth) qlenWidth

/-- The two words with the given bit-fields. -/
def ofFields (lineRate : BitVec lineRateWidth) (time : BitVec timeWidth) (bytes : BitVec bytesWidth)
    (qlen : BitVec qlenWidth) : IntHop where
  buf0 := (qlen ++ (bytes ++ (time ++ lineRate))).extractLsb' 0 32
  buf1 := (qlen ++ (bytes ++ (time ++ lineRate))).extractLsb' 32 32

/-! ### Set and the readings -/

/-- The `switch` of `Set`; another rate leaves the bit-field as it is. -/
def rateIndex (h : IntHop) : ℕ → BitVec lineRateWidth
  | 10000000000 => 0
  | 20000000000 => 1
  | 25000000000 => 2
  | 40000000000 => 3
  | 50000000000 => 4
  | 100000000000 => 5
  | 200000000000 => 6
  | 400000000000 => 7
  | _ => h.lineRate

def set (multi : ℕ) (h : IntHop) (time bytes qlen rate : ℕ) : IntHop :=
  ofFields (h.rateIndex rate) (BitVec.ofNat timeWidth time)
    (BitVec.ofNat bytesWidth (bytes / (byteUnit * multi)))
    (BitVec.ofNat qlenWidth (qlen / (qlenUnit * multi)))

def getLineRate (h : IntHop) : ℕ := lineRateValues.getD h.lineRate.toNat 0

/-- `GetQlen`, in `uint32_t`. -/
def getQlen (multi : ℕ) (h : IntHop) : ℕ := h.qlen.toNat * qlenUnit * multi % 2 ^ 32

/-- `GetBytesDelta`: the bit-fields are promoted to `int`, the units are `uint32_t`. -/
def getBytesDelta (multi : ℕ) (h b : IntHop) : ℕ :=
  if b.bytes.toNat ≤ h.bytes.toNat then (h.bytes.toNat - b.bytes.toNat) * byteUnit * multi % 2 ^ 32
  else (h.bytes.toNat + 2 ^ bytesWidth - b.bytes.toNat) * byteUnit * multi % 2 ^ 32

def getTimeDelta (h b : IntHop) : ℕ :=
  if b.time.toNat ≤ h.time.toNat then h.time.toNat - b.time.toNat
  else h.time.toNat + 2 ^ timeWidth - b.time.toNat

/-! ### The fields of a hop -/

section

variable {l : BitVec lineRateWidth} {t : BitVec timeWidth} {b : BitVec bytesWidth}
    {q : BitVec qlenWidth}

theorem word_ofFields : (ofFields l t b q).word = q ++ (b ++ (t ++ l)) :=
  BitVec.extractLsb'_append_extractLsb'

@[simp] theorem lineRate_ofFields : (ofFields l t b q).lineRate = l := by
  unfold lineRate
  rw [word_ofFields, BitVec.extractLsb'_append_eq_of_add_le (by decide),
    BitVec.extractLsb'_append_eq_of_add_le (by decide)]
  exact BitVec.extractLsb'_append_eq_right

@[simp] theorem time_ofFields : (ofFields l t b q).time = t := by
  unfold time
  rw [word_ofFields, BitVec.extractLsb'_append_eq_of_add_le (by decide),
    BitVec.extractLsb'_append_eq_of_add_le (by decide)]
  exact BitVec.extractLsb'_append_eq_left

@[simp] theorem bytes_ofFields : (ofFields l t b q).bytes = b := by
  unfold bytes
  rw [word_ofFields, BitVec.extractLsb'_append_eq_of_add_le (by decide)]
  exact BitVec.extractLsb'_append_eq_left

@[simp] theorem qlen_ofFields : (ofFields l t b q).qlen = q := by
  unfold qlen
  rw [word_ofFields]
  exact BitVec.extractLsb'_append_eq_left

end

/-! ### What is read after `Set` -/

variable {multi : ℕ} (h h' : IntHop) {time time' bytes bytes' qlen qlen' rate rate' : ℕ}

theorem getLineRate_set (known : rate ∈ lineRateValues) (used : rate ≠ 0) :
    (set multi h time bytes qlen rate).getLineRate = rate := by
  unfold getLineRate set
  rw [lineRate_ofFields]
  simp only [lineRateValues, List.mem_cons, List.not_mem_nil, or_false] at known
  rcases known with rfl | rfl | rfl | rfl | rfl | rfl | rfl | rfl | rfl | rfl
  all_goals first | rfl | exact absurd rfl used

theorem getTimeDelta_set (le : time ≤ time') (near : time' - time < 2 ^ timeWidth) :
    (set multi h' time' bytes' qlen' rate').getTimeDelta (set multi h time bytes qlen rate) =
      time' - time := by
  unfold getTimeDelta set
  simp only [time_ofFields, BitVec.toNat_ofNat]
  exact lapped_exact le near

theorem getBytesDelta_set (low : 1 ≤ multi) (high : multi ≤ 16) (le : bytes ≤ bytes')
    (near : bytes' - bytes ≤ (2 ^ bytesWidth - 1) * (byteUnit * multi)) :
    getBytesDelta multi (set multi h' time' bytes' qlen' rate') (set multi h time bytes qlen rate) =
      (bytes' / (byteUnit * multi) - bytes / (byteUnit * multi)) * (byteUnit * multi) := by
  have pos : 0 < byteUnit * multi := Nat.mul_pos (by decide) low
  have units := units_le pos near
  have exact' :=
    @lapped_exact (2 ^ bytesWidth) _ _ (@Nat.div_le_div_right _ _ (byteUnit * multi) le)
    (units.trans_lt (by decide))
  have fits : (bytes' / (byteUnit * multi) - bytes / (byteUnit * multi)) * (byteUnit * multi) <
      2 ^ 32 := by
    have scaled := Nat.mul_le_mul units (Nat.mul_le_mul_left byteUnit high)
    exact scaled.trans_lt (by decide)
  unfold getBytesDelta
  rw [← apply_ite (fun d => d * byteUnit * multi % 2 ^ 32)]
  unfold set
  simp only [bytes_ofFields, BitVec.toNat_ofNat]
  rw [Nat.mul_assoc]
  refine (congrArg (fun d => d * (byteUnit * multi) % 2 ^ 32) exact').trans ?_
  exact Nat.mod_eq_of_lt fits

theorem getQlen_set (high : multi ≤ 16) : getQlen multi (set multi h time bytes qlen rate) =
    qlen / (qlenUnit * multi) % 2 ^ qlenWidth * (qlenUnit * multi) := by
  unfold getQlen set
  rw [qlen_ofFields, BitVec.toNat_ofNat, Nat.mul_assoc]
  refine Nat.mod_eq_of_lt ?_
  have field : qlen / (qlenUnit * multi) % 2 ^ qlenWidth ≤ 2 ^ qlenWidth - 1 :=
    Nat.le_sub_one_of_lt (Nat.mod_lt _ (by decide))
  exact (Nat.mul_le_mul field (Nat.mul_le_mul_left qlenUnit high)).trans_lt (by decide)

/-- Of two snapshots of a port the time is exact and the bytes miss by less than a unit; the queue
length does just while it is below `2 ^ 17` units. -/
theorem snapshots_decode_iff (low : 1 ≤ multi) (high : multi ≤ 16) (times : time ≤ time')
    (timesNear : time' - time < 2 ^ 24) (counters : bytes ≤ bytes')
    (countersNear : bytes' - bytes ≤ (2 ^ 20 - 1) * (128 * multi)) :
    ((set multi h' time' bytes' qlen' rate').getTimeDelta (set multi h time bytes qlen rate) =
      time' - time ∧
      |(getBytesDelta multi (set multi h' time' bytes' qlen' rate')
        (set multi h time bytes qlen rate) : ℤ) - (bytes' - bytes)| < 128 * multi ∧
      getQlen multi (set multi h' time' bytes' qlen' rate') ≤ qlen' ∧
      qlen' < getQlen multi (set multi h' time' bytes' qlen' rate') + 80 * multi) ↔
      qlen' < 2 ^ 17 * (80 * multi) := by
  have field := @units_field_iff (2 ^ qlenWidth) (qlenUnit * multi) qlen' (by decide)
    (Nat.mul_pos (by decide) low)
  rw [getQlen_set h' high, getBytesDelta_set h h' low high counters countersNear]
  have near := units_difference (Nat.mul_pos (show 0 < byteUnit by decide) low) counters
  have within : |(((bytes' / (byteUnit * multi) - bytes / (byteUnit * multi)) * (byteUnit * multi) :
    ℕ) : ℤ) - (bytes' - bytes)| < 128 * multi := by
    rw [abs_lt]
    have unit : byteUnit * multi = 128 * multi := rfl
    rw [unit] at near ⊢
    omega
  constructor
  · rintro ⟨-, -, queue⟩
    exact field.mp queue
  · intro fits
    exact ⟨getTimeDelta_set h h' times timesNear, within, field.mpr fits⟩

theorem snapshots_decode_queued :
    (set 1 {} 20 300 5000 100000000000).getTimeDelta (set 1 {} 10 100 2500 100000000000) = 20 - 10 ∧
      |(getBytesDelta 1 (set 1 {} 20 300 5000 100000000000) (set 1 {} 10 100 2500 100000000000) :
        ℤ) - ((300 : ℕ) - (100 : ℕ))| < 128 * (1 : ℕ) ∧
      getQlen 1 (set 1 {} 20 300 5000 100000000000) ≤ 5000 ∧
      5000 < getQlen 1 (set 1 {} 20 300 5000 100000000000) + 80 * 1 :=
  (snapshots_decode_iff {} {} (by decide) (by decide) (by decide) (by decide) (by decide)
    (by decide)).mpr (by decide)

/-- Ten MB in the queues of a port of a switch with a buffer of 32 MB read as an empty port. -/
theorem getQlen_wraps : 10485760 ≤ 32 * 1024 * 1024 ∧
    getQlen 1 (set 1 {} 0 0 10485760 100000000000) = 0 := by decide

end IntHop

/-! ### PushHop -/

namespace IntStack

/-- `PushHop` with mode 0. -/
def pushHop (multi : ℕ) (ih : IntStack) (time bytes qlen rate : ℕ) : IntStack :=
  let idx : Fin maxHop := Fin.ofNat maxHop ih.nhop.toNat
  { hop := Function.update ih.hop idx ((ih.hop idx).set multi time bytes qlen
    rate), nhop := ih.nhop + 1#16 }

/-- What a port pushes on a packet that leaves it. -/
structure Snapshot where
  time : ℕ
  bytes : ℕ
  qlen : ℕ
  rate : ℕ

/-- The header of a packet after the ports of `path`, from the empty header. -/
def along (multi : ℕ) (path : List Snapshot) : IntStack :=
  path.foldl (fun ih s => ih.pushHop multi s.time s.bytes s.qlen s.rate) {}

theorem pushHop_keeps {ih : IntStack} {multi time bytes qlen rate : ℕ} {j : Fin maxHop}
    (earlier : j < ih.nhop.toNat)
    (room : ih.nhop.toNat < maxHop) : (ih.pushHop multi time bytes qlen rate).hop j = ih.hop j := by
  refine Function.update_of_ne (fun same => ?_) _ _
  have place : (j : ℕ) = ih.nhop.toNat % maxHop := congrArg Fin.val same
  rw [Nat.mod_eq_of_lt room] at place
  omega

/-- On a path of at most five ports every port's snapshot has a place of its own. -/
theorem along_hop {multi : ℕ} {path : List Snapshot} (short : path.length ≤ maxHop) :
    (along multi path).nhop.toNat = path.length ∧ ∀ j (inside : j < path.length), ∃ old : IntHop,
      (along multi path).hop ⟨j, inside.trans_le short⟩ =
        old.set multi path[j].time path[j].bytes path[j].qlen path[j].rate := by
  induction path using List.reverseRecOn with
  | nil => exact ⟨rfl, fun j inside => absurd inside (Nat.not_lt_zero j)⟩
  | append_singleton path s ih =>
    rw [List.length_append, List.length_singleton] at short
    obtain ⟨count, hops⟩ := ih (Nat.le_of_succ_le short)
    have last : along multi (path ++ [s]) =
        (along multi path).pushHop multi s.time s.bytes s.qlen s.rate := by
      unfold along
      rw [List.foldl_append]
      rfl
    rw [last]
    constructor
    · rw [List.length_append, List.length_singleton, pushHop, BitVec.toNat_add, count]
      exact Nat.mod_eq_of_lt (short.trans_lt (by decide))
    · intro j inside
      rw [List.length_append, List.length_singleton] at inside
      rcases Nat.lt_or_eq_of_le (Nat.le_of_lt_succ inside) with earlier | rfl
      · obtain ⟨old, same⟩ := hops j earlier
        refine ⟨old, ?_⟩
        rw [pushHop_keeps (by simpa [count] using earlier) (by omega), same,
          List.getElem_append_left earlier]
      · refine ⟨(along multi path).hop ⟨path.length, by omega⟩, ?_⟩
        have place : Fin.ofNat maxHop (along multi path).nhop.toNat = ⟨path.length, by omega⟩ :=
          Fin.ext ((congrArg (· % maxHop) count).trans (Nat.mod_eq_of_lt (by omega)))
        rw [pushHop, place, List.getElem_append_right (le_refl _)]
        simp

end IntStack

end Wire

end Pyrrha

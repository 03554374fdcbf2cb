import Mathlib.Data.List.Basic
import Mathlib.Data.Nat.Notation

/-! Words as lists of bytes in either order, and readers that take the values off a list of bytes
that were written on it. -/

namespace Pyrrha.Lib

abbrev Byte := BitVec 8

variable {α β : Type} {w n : ℕ}

/-! ### Words and their bytes -/

/-- Byte `k` of a word, the least significant being byte 0. -/
def byteAt (x : BitVec w) (k : ℕ) : Byte := (x >>> (8 * k)).setWidth 8

/-- The low `n` bytes of a word, the least significant first. -/
def leBytes (n : ℕ) (x : BitVec w) : List Byte := (List.range n).map (byteAt x)

/-- The low `n` bytes of a word, the most significant first. -/
def beBytes (n : ℕ) (x : BitVec w) : List Byte := (leBytes n x).reverse

/-- The word that comes from shifting bytes in, the most significant first. -/
def shiftIn (w : ℕ) (bytes : List Byte) : BitVec w :=
  bytes.foldl (fun data byte => data <<< 8 ||| byte.setWidth w) 0#w

@[simp] theorem length_leBytes (n : ℕ) (x : BitVec w) : (leBytes n x).length = n := by
  simp [leBytes]

@[simp] theorem length_beBytes (n : ℕ) (x : BitVec w) : (beBytes n x).length = n := by
  simp [beBytes]

/-- The bytes of a word from byte `k` on are those from the next byte on and byte `k`. -/
theorem shift_byteAt (x : BitVec w) (k : ℕ) :
    (x >>> (8 * (k + 1))) <<< 8 ||| (byteAt x k).setWidth w = x >>> (8 * k) := by
  apply BitVec.eq_of_getLsbD_eq
  intro i lt
  simp only [byteAt, BitVec.getLsbD_or, BitVec.getLsbD_shiftLeft, BitVec.getLsbD_ushiftRight,
    BitVec.getLsbD_setWidth]
  by_cases low : i < 8
  · simp [low, lt]
  · have next : 8 * (k + 1) + (i - 8) = 8 * k + i := by omega
    simp [low, lt, next]

theorem beBytes_shiftIn (x : BitVec w) (wide : w ≤ 8 * n) : shiftIn w (beBytes n x) = x := by
  have loop :
    ∀ k, (beBytes k x).foldl (fun (data : BitVec w) (byte : Byte) => data <<< 8 ||| byte.setWidth w)
      (x >>> (8 * k)) = x := by
    intro k
    induction k with
    | zero => simp [beBytes, leBytes]
    | succ k ih =>
      have split : beBytes (k + 1) x = byteAt x k :: beBytes k x := by
        simp [beBytes, leBytes, List.range_succ]
      rw [split, List.foldl_cons, shift_byteAt]
      exact ih
  have none_left : x >>> (8 * n) = 0#w := BitVec.ushiftRight_eq_zero wide
  have all := loop n
  rw [none_left] at all
  exact all

theorem leBytes_shiftIn (x : BitVec w) (wide : w ≤ 8 * n) : shiftIn w (leBytes n x).reverse = x :=
  beBytes_shiftIn x wide

/-- The bytes of a word from byte `m` on are those of the word shifted. -/
theorem leBytes_add (m n : ℕ) (x : BitVec w) : leBytes (m + n) x = leBytes m x ++
    leBytes n (x >>> (8 * m)) := by
  rw [leBytes, List.range_add, List.map_append, List.map_map]
  congr 1
  apply List.map_congr_left
  intro k _
  rw [Function.comp_apply, byteAt, byteAt, ← BitVec.shiftRight_add, ← Nat.mul_add]

theorem leBytes_injective {x y : BitVec w} (wide : w ≤ 8 * n) (same : leBytes n x = leBytes n y) :
    x = y := by
  rw [← leBytes_shiftIn x wide, same, leBytes_shiftIn y wide]

/-- Shifting a byte in below a word puts it before the bytes of the word. -/
theorem leBytes_shift (y : BitVec w) (b : Byte) (wide : 8 * (n + 1) ≤ w) :
    leBytes (n + 1) (y <<< 8 ||| b.setWidth w) = b :: leBytes n y := by
  rw [leBytes, List.range_succ_eq_map, List.map_cons, List.map_map]
  congr 1
  · apply BitVec.eq_of_getLsbD_eq
    intro i lt
    have inside : i < w := by omega
    simp [byteAt, lt, inside]
  · apply List.map_congr_left
    intro k below
    rw [List.mem_range] at below
    apply BitVec.eq_of_getLsbD_eq
    intro i lt
    have inside : 8 * (k + 1) + i < w := by omega
    have beyond : ¬8 * (k + 1) + i < 8 := by omega
    have place : 8 * (k + 1) + i - 8 = 8 * k + i := by omega
    have none : b.getLsbD (8 * (k + 1) + i) = false := BitVec.getLsbD_of_ge b _ (by omega)
    simp only [byteAt, Function.comp_apply, BitVec.getLsbD_setWidth, BitVec.getLsbD_ushiftRight,
      BitVec.getLsbD_or,
      BitVec.getLsbD_shiftLeft, lt, inside, beyond, place, none, decide_true, decide_false,
        Bool.not_false, Bool.true_and, Bool.or_false, Bool.and_false]

/-- The bytes of a word are those that were shifted into it. -/
theorem leBytes_of_bytes (bytes : List Byte) (wide : 8 * bytes.length ≤ w) :
    leBytes bytes.length (shiftIn w bytes.reverse) = bytes := by
  induction bytes with
  | nil => rfl
  | cons b rest ih =>
    rw [List.length_cons] at wide
    have last : shiftIn w (b :: rest).reverse = shiftIn w rest.reverse <<< 8 ||| b.setWidth w := by
      simp [shiftIn]
    rw [last, List.length_cons, leBytes_shift _ _ wide, ih (by omega)]

/-! ### Readers -/

/-- A reader takes a value off the front of the bytes that are left; `none` is a read beyond their
end. -/
abbrev Reader (α : Type) := StateT (List Byte) Option α

namespace Reader

/-- The next `n` bytes. -/
def take (n : ℕ) : Reader (List Byte) := fun bytes =>
  if n ≤ bytes.length then some (bytes.take n, bytes.drop n) else none

def skip (n : ℕ) : Reader Unit := fun bytes => if n ≤ bytes.length then some ((), bytes.drop n)
    else none

/-- Goes to position `n` of `start`. -/
def seek (start : List Byte) (n : ℕ) : Reader Unit := fun _ =>
  if n ≤ start.length then some ((), start.drop n) else none

/-- What `r` would read, without taking it off. -/
def look (r : Reader α) : Reader α := fun bytes => (r bytes).map fun read => (read.1, bytes)

/-- A word of `n` bytes, the least significant first. -/
def le (w n : ℕ) : Reader (BitVec w) := do
  let bytes ← take n
  pure (shiftIn w bytes.reverse)

/-- A word of `n` bytes, the most significant first. -/
def be (w n : ℕ) : Reader (BitVec w) := do
  let bytes ← take n
  pure (shiftIn w bytes)

/-- The reader takes exactly `bytes` off and gives `a`. -/
def Reads (r : Reader α) (bytes : List Byte) (a : α) : Prop :=
  ∀ rest, r (bytes ++ rest) = some (a, rest)

variable {r : Reader α} {bytes rest : List Byte} {a : α}

theorem run_pure (a : α) (s : List Byte) : (pure a : Reader α) s = some (a, s) := rfl

/-- A reader that goes on after `r` goes on with what `r` gave and left. -/
theorem run_bind {s s' : List Byte} (first : r s = some (a, s')) (f : α → Reader β) :
    (r >>= f) s = f a s' := by
  show (r s >>= fun read => f read.1 read.2) = _
  rw [first]
  rfl

theorem bind_eq_some {f : α → Reader β} {s : List Byte} {out : β × List Byte}
    (h : (r >>= f) s = some out) : ∃ a s', r s = some (a, s') ∧ f a s' = some out := by
  obtain ⟨⟨a, s'⟩, first, next⟩ := Option.bind_eq_some_iff.mp h
  exact ⟨a, s', first, next⟩

theorem Reads.bind (first : Reads r bytes a) (f : α → Reader β) (rest : List Byte) :
    (r >>= f) (bytes ++ rest) = f a rest :=
  run_bind (first rest) f

theorem reads_look (first : Reads r bytes a) (f : α → Reader β) (rest : List Byte) :
    (look r >>= f) (bytes ++ rest) = f a (bytes ++ rest) := by
  apply run_bind
  rw [look, first]
  rfl

theorem reads_take (bytes : List Byte) : Reads (take bytes.length) bytes bytes := by
  intro rest
  simp [take]

theorem reads_skip (size : bytes.length = n) : Reads (skip n) bytes () := by
  intro rest
  subst size
  simp [skip]

theorem reads_le (x : BitVec w) (wide : w ≤ 8 * n) : Reads (le w n) (leBytes n x) x := by
  intro rest
  have taken := reads_take (leBytes n x)
  rw [length_leBytes] at taken
  rw [le, taken.bind, run_pure, leBytes_shiftIn x wide]

theorem reads_be (x : BitVec w) (wide : w ≤ 8 * n) : Reads (be w n) (beBytes n x) x := by
  intro rest
  have taken := reads_take (beBytes n x)
  rw [length_beBytes] at taken
  rw [be, taken.bind, run_pure, beBytes_shiftIn x wide]

/-- Going to the end of `front`, from anywhere. -/
theorem run_seek {front back s : List Byte} (place : front.length = n) (f : Unit → Reader β) :
    (seek (front ++ back) n >>= f) s = f () back := by
  subst place
  apply run_bind
  simp [seek]

/-- A loop reads what its rounds read. -/
theorem reads_loop {ι : Type} {step : α → ι → Reader α} {next : α → ι → α} {write : ι → List Byte}
    (round : ∀ a i, Reads (step a i) (write i) (next a i)) (l : List ι) (a : α) :
    Reads (l.foldlM step a) (l.flatMap write) (l.foldl next a) := by
  intro rest
  induction l generalizing a with
  | nil => rfl
  | cons i l ih =>
    rw [List.flatMap_cons, List.append_assoc, List.foldlM_cons, (round a i).bind, List.foldl_cons]
    exact ih (next a i)

end Reader

/-! ### Overlaid members -/

/-- A union holds the member that was written last. -/
abbrev Overlaid {ι : Type} (F : ι → Type) := (m : ι) × F m

/-- What the memory of a union reads as through each of its members; through the one written last it
is what was written. -/
structure Layout {ι : Type} (F : ι → Type) where
  read : (m : ι) → Overlaid F → F m
  read_self : ∀ m x, read m ⟨m, x⟩ = x

attribute [simp] Layout.read_self

/-- A layout that reads every other member as its default. -/
def Layout.apart {ι : Type} [DecidableEq ι] {F : ι → Type} (default : (m : ι) → F m) :
    Layout F where
  read m u := if same : u.1 = m then same ▸ u.2 else default m
  read_self m x := by simp

end Pyrrha.Lib

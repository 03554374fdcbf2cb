import Mathlib.Data.List.GetD
import Mathlib.Order.Lattice
import Mathlib.Logic.Function.Basic

/-!
`std::push_heap` and `std::pop_heap` on a vector, for elements that leave in ascending order of a
key. Both move a hole through the vector and fill it last.
-/

namespace Pyrrha.Lib.Heap

variable {α κ : Type}

/-! ### The keys of a vector -/

section

variable {key : α → κ} {v : List α} {d x : α} {hole : ℕ}

def keyAt (key : α → κ) (d : α) (v : List α) (i : ℕ) : κ := key (v.getD i d)

theorem keyAt_set (inside : hole < v.length) :
    keyAt key d (v.set hole x) = Function.update (keyAt key d v) hole (key x) := by
  funext i
  unfold keyAt
  rw [Function.update_apply]
  split
  · rename_i same
    rw [same, List.getD_eq_getElem _ d (by rwa [List.length_set]), List.getElem_set_self]
  · rename_i away
    rw [List.getD_eq_getElem?_getD, List.getElem?_set_ne (Ne.symm away), List.getD_eq_getElem?_getD]

/-- An element moves into the hole and leaves another one. -/
theorem set_move_perm {i j : ℕ} (inside : i < v.length) (inside' : j < v.length) (away : i ≠ j) :
    ((v.set i (v.getD j d)).set j x).Perm (v.set i x) := by
  have swap := @List.set_set_perm _ (v.set i x) i j (by simpa using inside) (by simpa using inside')
  rw [List.getElem_set_self, List.getElem_set_ne away, List.set_set] at swap
  rwa [List.getD_eq_getElem v d inside']

end

variable [LinearOrder κ]

def parent (i : ℕ) : ℕ := (i - 1) / 2

/-! ### The operations -/

/-- `__push_heap`: parents with a larger key than `value` move down. `left` bounds the turns. -/
def pushHeap (key : α → κ) (value : α) : ℕ → List α → ℕ → List α
  | 0, v, hole => v.set hole value
  | left + 1, v, hole =>
    let up := v.getD (parent hole) value
    if 0 < hole ∧ key value < key up then pushHeap key value left (v.set hole up) (parent hole)
    else v.set hole value

/-- The loop of `__adjust_heap`: while both children are in the vector, one of a smallest key moves
up, the right one when the keys are equal. -/
def sink (key : α → κ) (value : α) : ℕ → List α → ℕ → List α × ℕ
  | 0, v, hole => (v, hole)
  | left + 1, v, hole =>
    if hole < (v.length - 1) / 2 then
      let right := 2 * (hole + 1)
      let child := if key (v.getD (right - 1) value) < key (v.getD right value) then right - 1
        else right
      sink key value left (v.set hole (v.getD child value)) child
    else (v, hole)

/-- `__adjust_heap` from the top. After the loop the hole may have a left child alone. -/
def adjustHeap (key : α → κ) (value : α) (v : List α) : List α :=
  let (v, hole) := sink key value v.length v 0
  let left := 2 * (hole + 1) - 1
  if left + 1 = v.length then pushHeap key value left (v.set hole (v.getD left value)) left
  else pushHeap key value hole v hole

/-- `push_back` and `push_heap`. -/
def push (key : α → κ) (v : List α) (x : α) : List α := pushHeap key x v.length (v ++ [x]) v.length

/-- `pop_heap` and `pop_back`: the last element is put into the hole at the top. -/
def pop (key : α → κ) (v : List α) : List α :=
  if 1 < v.length then v.getLast?.elim [] fun last => adjustHeap key last v.dropLast else []

/-! ### Order in a tree -/

variable {f : ℕ → κ} {n hole : ℕ}

theorem parent_lt {i : ℕ} (pos : 0 < i) : parent i < i := by
  unfold parent
  omega

theorem parent_eq {i j : ℕ} (pos : 0 < i) (same : parent i = j) : i = 2 * j + 1 ∨
    i = 2 * j + 2 := by
  unfold parent at same
  omega

/-- No key among the first `n` is smaller than that of its parent. -/
def Ordered (n : ℕ) (f : ℕ → κ) : Prop := ∀ i, 0 < i → i < n → f (parent i) ≤ f i

/-- The order but for the element at the hole, which may have to rise. -/
structure Rising (n hole : ℕ) (f : ℕ → κ) : Prop where
  off : ∀ i, 0 < i → i < n → i ≠ hole → f (parent i) ≤ f i
  around : ∀ i, 0 < i → i < n → parent i = hole → 0 < hole → f (parent hole) ≤ f i

/-- The order of all elements but that at the hole, which is about to be overwritten. -/
structure Hollow (n hole : ℕ) (f : ℕ → κ) : Prop where
  off : ∀ i, 0 < i → i < n → i ≠ hole → parent i ≠ hole → f (parent i) ≤ f i
  around : ∀ i, 0 < i → i < n → parent i = hole → 0 < hole → f (parent hole) ≤ f i

theorem ordered_least (h : Ordered n f) {i : ℕ} (inside : i < n) : f 0 ≤ f i := by
  induction i using Nat.strongRecOn with
  | ind i ih =>
    rcases Nat.eq_zero_or_pos i with rfl | pos
    · exact le_refl _
    · have up := parent_lt pos
      exact (ih (parent i) up (by omega)).trans (h i pos inside)

theorem hollow_of_ordered (h : Ordered n f) : Hollow n 0 f where
  off i pos inside _ _ := h i pos inside
  around _ _ _ _ pos := absurd pos (Nat.lt_irrefl 0)

/-- The parent moves down into the hole. -/
theorem rising_move {x : κ} (h : Rising n hole (Function.update f hole x)) (pos : 0 < hole)
    (less : x < f (parent hole)) :
    Rising n (parent hole) (Function.update (Function.update f hole (f (parent hole)))
      (parent hole) x) := by
  have up := parent_lt pos
  have off := h.off
  have around := h.around
  simp only [Function.update_apply] at off around
  constructor
  · intro i iPos inside away
    have up' := parent_lt iPos
    simp only [Function.update_apply]
    have here := off i iPos inside
    have below := around i iPos inside
    rw [if_neg away]
    by_cases atHole : i = hole
    · rw [atHole, if_pos rfl, if_pos rfl]
      exact less.le
    · have order := here atHole
      rw [if_neg atHole] at order below ⊢
      by_cases child : parent i = hole
      · rw [if_neg (by omega), if_pos child]
        have between := below child pos
        rwa [if_neg (by omega)] at between
      · rw [if_neg child] at order ⊢
        by_cases sibling : parent i = parent hole
        · rw [if_pos sibling]
          exact less.le.trans (sibling ▸ order)
        · rwa [if_neg sibling]
  · intro i iPos inside child upPos
    have up' := parent_lt iPos
    have upper := parent_lt upPos
    simp only [Function.update_apply]
    have grand := off (parent hole) upPos
    rw [if_neg (by omega), if_neg (by omega)] at grand
    rw [if_neg (by omega), if_neg (by omega), if_neg (by omega)]
    by_cases atHole : i = hole
    · rw [atHole] at inside
      rw [if_pos atHole]
      exact grand (by omega) (by omega)
    · have order := off i iPos inside atHole
      rw [if_neg atHole, if_neg (by omega), child] at order
      rw [if_neg atHole]
      exact (grand (by omega) (by omega)).trans order

theorem ordered_of_rising (h : Rising n hole f) (stop : 0 < hole → f (parent hole) ≤ f hole) :
    Ordered n f := by
  intro i pos inside
  by_cases atHole : i = hole
  · rw [atHole] at pos ⊢
    exact stop pos
  · exact h.off i pos inside atHole

/-- A smallest child moves up into the hole. -/
theorem hollow_move {child : ℕ} (h : Hollow n hole f) (pos : 0 < child) (inside : child < n)
    (below : parent child = hole) (least : ∀ i, 0 < i → i < n → parent i = hole → f child ≤ f i) :
    Hollow n child (Function.update f hole (f child)) := by
  have down := parent_lt pos
  constructor
  · intro i iPos iInside away awayUp
    have up := parent_lt iPos
    simp only [Function.update_apply]
    by_cases atHole : i = hole
    · rw [if_neg (by omega), if_pos atHole, atHole]
      rw [atHole] at iPos
      exact h.around child pos inside below iPos
    · rw [if_neg atHole]
      by_cases sibling : parent i = hole
      · rw [if_pos sibling]
        exact least i iPos iInside sibling
      · rw [if_neg sibling]
        exact h.off i iPos iInside atHole sibling
  · intro i iPos iInside under _
    have up := parent_lt iPos
    simp only [Function.update_apply]
    rw [if_pos below, if_neg (by omega)]
    have order := h.off i iPos iInside (by omega) (by omega)
    rwa [under] at order

/-- At a hole without children any key may be put. -/
theorem rising_of_hollow {x : κ} (h : Hollow n hole f) (leaf : n ≤ 2 * hole + 1) :
    Rising n hole (Function.update f hole x) := by
  constructor
  · intro i pos inside away
    have childless : parent i ≠ hole := fun child => by
      have place := parent_eq pos child
      omega
    rw [Function.update_of_ne childless, Function.update_of_ne away]
    exact h.off i pos inside away childless
  · intro i pos inside child
    have place := parent_eq pos child
    omega

/-! ### The operations keep the order -/

variable {key : α → κ} {v : List α} {x : α}

theorem pushHeap_spec {value : α} {left : ℕ} (inside : hole < v.length) (turns : hole ≤ left)
    (h : Rising v.length hole (Function.update (keyAt key value v) hole (key value))) :
    Ordered v.length (keyAt key value (pushHeap key value left v hole)) ∧
      (pushHeap key value left v hole).Perm (v.set hole value) := by
  induction left generalizing v hole with
  | zero =>
    obtain rfl : hole = 0 := Nat.le_zero.mp turns
    rw [pushHeap, keyAt_set inside]
    exact ⟨ordered_of_rising h fun pos => absurd pos (Nat.lt_irrefl 0), List.Perm.refl _⟩
  | succ left ih =>
    unfold pushHeap
    dsimp only
    split
    · rename_i rises
      obtain ⟨pos, less⟩ := rises
      have up := parent_lt pos
      have moved := rising_move h pos less
      rw [← @List.length_set _ v hole (v.getD (parent hole) value)] at moved
      rw [show keyAt key value v (parent hole) = key (v.getD (parent hole) value) from rfl,
        ← keyAt_set inside] at moved
      obtain ⟨order, perm⟩ := ih (by rw [List.length_set]; omega) (by omega) moved
      rw [List.length_set] at order
      exact ⟨order, perm.trans (set_move_perm inside (by omega) (by omega))⟩
    · rename_i stays
      rw [keyAt_set inside]
      refine ⟨ordered_of_rising h fun pos => ?_, List.Perm.refl _⟩
      have up := parent_lt pos
      rw [Function.update_self, Function.update_of_ne (by omega)]
      exact not_lt.mp fun less => stays ⟨pos, less⟩

/-- The loop ends with the hole at an element that has a left child at most. -/
theorem sink_spec {value : α} {left : ℕ} (inside : hole < v.length) (turns : v.length ≤ left + hole)
    (h : Hollow v.length hole (keyAt key value v)) :
    let r := sink key value left v hole
    r.1.length = v.length ∧ r.2 < v.length ∧ (v.length - 1) / 2 ≤ r.2 ∧
      Hollow v.length r.2 (keyAt key value r.1) ∧ (r.1.set r.2 value).Perm (v.set hole value) := by
  induction left generalizing v hole with
  | zero => omega
  | succ left ih =>
    unfold sink
    dsimp only
    split
    · rename_i both
      generalize chosen :
        (if key (v.getD (2 * (hole + 1) - 1) value) < key (v.getD (2 * (hole + 1)) value)
        then 2 * (hole + 1) - 1 else 2 * (hole + 1)) = child
      have place : child = 2 * hole + 1 ∨ child = 2 * hole + 2 := by
        rw [← chosen]
        split <;> omega
      have below : parent child = hole := by
        unfold parent
        omega
      have least : ∀ i, 0 < i → i < v.length → parent i = hole →
          keyAt key value v child ≤ keyAt key value v i := by
        intro i pos _ under
        rcases parent_eq pos under with rfl | rfl
        · rw [← chosen]
          split
          · exact le_refl _
          · rename_i notLess
            exact not_lt.mp notLess
        · rw [← chosen]
          split
          · rename_i less
            exact less.le
          · exact le_refl _
      have moved := hollow_move h (by omega) (by omega) below least
      rw [show keyAt key value v child = key (v.getD child value) from rfl,
        ← keyAt_set inside] at moved
      rw [← @List.length_set _ v hole (v.getD child value)] at moved
      obtain ⟨length, within, last, order, perm⟩ := ih (by rw [List.length_set]; omega)
        (by rw [List.length_set]; omega) moved
      rw [List.length_set] at length within last order
      exact ⟨length, within, last, order, perm.trans (set_move_perm inside (by omega) (by omega))⟩
    · rename_i few
      exact ⟨rfl, inside, Nat.not_lt.mp few, h, List.Perm.refl _⟩

theorem adjustHeap_spec {value : α} (filled : 0 < v.length)
    (h : Hollow v.length 0 (keyAt key value v)) :
    Ordered v.length (keyAt key value (adjustHeap key value v)) ∧
      (adjustHeap key value v).Perm (v.set 0 value) := by
  have sunk := sink_spec filled (Nat.le_add_right v.length 0) h
  unfold adjustHeap
  generalize sink key value v.length v 0 = r at sunk
  obtain ⟨w, hole⟩ := r
  obtain ⟨length, within, last, order, perm⟩ := sunk
  dsimp only at length within last order perm ⊢
  split
  · rename_i alone
    -- the only child of the hole takes its place
    generalize chosen : 2 * (hole + 1) - 1 = child at alone ⊢
    have below : parent child = hole := by
      unfold parent
      omega
    have moved := hollow_move order (by omega) (by omega) below fun i pos inside under => by
      obtain rfl : i = child := by
        have place := parent_eq pos under
        omega
      exact le_refl _
    rw [show keyAt key value w child = key (w.getD child value) from rfl,
      ← keyAt_set (by omega)] at moved
    have rising := @rising_of_hollow _ _ _ _ _ (key value) moved (by omega)
    rw [← length, ← @List.length_set _ w hole (w.getD child value)] at rising
    obtain ⟨done, same⟩ := pushHeap_spec (by rw [List.length_set]; omega) (Nat.le_refl _) rising
    rw [List.length_set, length] at done
    exact ⟨done, same.trans ((set_move_perm (by omega) (by omega) (by omega)).trans perm)⟩
  · have rising := @rising_of_hollow _ _ _ _ _ (key value) order (by omega)
    rw [← length] at rising
    obtain ⟨done, same⟩ := pushHeap_spec (by omega) (Nat.le_refl _) rising
    rw [length] at done
    exact ⟨done, same.trans perm⟩

/-! ### Heaps -/

variable {a : α}

def IsHeap (key : α → κ) (v : List α) : Prop := ∀ d, Ordered v.length (keyAt key d v)

theorem isHeap_of_ordered {d : α} (h : Ordered v.length (keyAt key d v)) : IsHeap key v := by
  intro d' i pos inside
  have up := parent_lt pos
  have order := h i pos inside
  unfold keyAt at order ⊢
  rw [List.getD_eq_getElem v d (by omega), List.getD_eq_getElem v d inside] at order
  rwa [List.getD_eq_getElem v d' (by omega), List.getD_eq_getElem v d' inside]

theorem isHeap_nil : IsHeap key [] := fun _ _ _ inside => absurd inside (Nat.not_lt_zero _)

/-- The first element has a smallest key. -/
theorem isHeap_head (h : IsHeap key (a :: v)) : ∀ b ∈ a :: v, key a ≤ key b := by
  intro b member
  obtain ⟨i, inside, rfl⟩ := List.mem_iff_getElem.mp member
  have order := ordered_least (h a) inside
  unfold keyAt at order
  rwa [List.getD_cons_zero, List.getD_eq_getElem _ a inside] at order

theorem push_spec (h : IsHeap key v) : IsHeap key (push key v x) ∧
    (push key v x).Perm (x :: v) := by
  have inside : v.length < (v ++ [x]).length := by simp
  have rising : Rising (v ++ [x]).length v.length
      (Function.update (keyAt key x (v ++ [x])) v.length (key x)) := by
    constructor
    · intro i pos last away
      rw [List.length_append, List.length_singleton] at last
      have up := parent_lt pos
      have order := h x i pos (by omega)
      rw [Function.update_of_ne (by omega), Function.update_of_ne away]
      unfold keyAt at order ⊢
      rwa [List.getD_append _ _ _ _ (by omega), List.getD_append _ _ _ _ (by omega)]
    · intro i pos last under
      rw [List.length_append, List.length_singleton] at last
      have up := parent_lt pos
      omega
  obtain ⟨order, perm⟩ := pushHeap_spec inside (Nat.le_refl _) rising
  have appended : (v ++ [x]).set v.length x = v ++ [x] := by simp
  rw [appended] at perm
  have length := perm.length_eq
  rw [← length] at order
  exact ⟨isHeap_of_ordered order, perm.trans List.perm_append_comm⟩

theorem pop_spec (h : IsHeap key (a :: v)) : IsHeap key (pop key (a :: v)) ∧
    (pop key (a :: v)).Perm v := by
  rcases List.eq_nil_or_concat v with rfl | ⟨front, last, rfl⟩
  · exact ⟨isHeap_nil, List.Perm.refl _⟩
  · rw [List.concat_eq_append] at h ⊢
    have popped : pop key (a :: (front ++ [last])) = adjustHeap key last (a :: front) := by
      unfold pop
      rw [if_pos (by simp), ← List.cons_append, List.getLast?_concat, List.dropLast_concat]
      rfl
    have shorter : Ordered (a :: front).length (keyAt key last (a :: front)) := by
      intro i pos inside
      have up := parent_lt pos
      have order := h last i pos (by simp at inside ⊢; omega)
      unfold keyAt at order ⊢
      rwa [← List.cons_append, List.getD_append _ _ _ _ (by omega),
        List.getD_append _ _ _ _ inside] at order
    obtain ⟨order, perm⟩ :=
      adjustHeap_spec (show 0 < (a :: front).length from Nat.succ_pos _) (hollow_of_ordered shorter)
    have length := perm.length_eq
    rw [List.length_set] at length
    rw [← length] at order
    rw [List.set_cons_zero] at perm
    rw [popped]
    exact ⟨isHeap_of_ordered order, perm.trans (List.perm_append_singleton last front).symm⟩

/-! ### Elements of one key -/

section

variable {b c : α} {v w l : List α}

/-- The elements of each key stand in `v` in the order in which they stand in `l`. -/
def Stable (key : α → κ) (v l : List α) : Prop :=
  ∀ k, v.filter (fun a => decide (key a = k)) = l.filter fun a => decide (key a = k)

theorem stable_append (h : Stable key v l) : Stable key (v ++ [x]) (l ++ [x]) := by
  intro k
  rw [List.filter_append, List.filter_append, h k]

theorem stable_swap (away : key a ≠ key b) (h : Stable key (v ++ a :: b :: w) l) :
    Stable key (v ++ b :: a :: w) l := by
  intro k
  rw [← h k, List.filter_append, List.filter_append]
  by_cases here : key a = k
  · have other : key b ≠ k := fun there => away (here.trans there.symm)
    simp [List.filter_cons, other]
  · simp [List.filter_cons, here]

theorem stable_of_nodup (perm : v.Perm l) (distinct : (l.map key).Nodup) : Stable key v l := by
  intro k
  have same := perm.filter fun a => decide (key a = k)
  have apart : ((l.filter fun a => decide (key a = k)).map key).Nodup :=
    distinct.sublist (List.filter_sublist.map key)
  cases found : l.filter fun a => decide (key a = k) with
  | nil =>
    rw [found] at same
    exact same.eq_nil
  | cons a rest =>
    have keys : ∀ b ∈ a :: rest, key b = k := by
      intro b member
      rw [← found, List.mem_filter] at member
      exact of_decide_eq_true member.2
    cases rest with
    | nil =>
      rw [found] at same
      exact List.perm_singleton.mp same
    | cons b others =>
      rw [found] at apart
      have first := keys a (by simp)
      have second := keys b (by simp)
      simp [first, second] at apart

/-- What stands first is the first of its key. -/
theorem stable_find (h : Stable key (a :: v) l) :
    l.find? (fun b => decide (key b = key a)) = some a := by
  rw [← List.head?_filter, ← h (key a), List.head?_filter]
  exact List.find?_cons_of_pos (decide_eq_true rfl)

/-! Up to three elements the operations can be written out. -/

theorem push_one : push key [a] x = if key x < key a then [x, a] else [a, x] := by
  simp [push, pushHeap, parent]

theorem push_two : push key [a, b] x = if key x < key a then [x, b, a] else [a, b, x] := by
  simp [push, pushHeap, parent]

theorem pop_two : pop key [a, b] = [b] := by
  simp [pop, adjustHeap, sink, pushHeap]

theorem pop_three : pop key [a, b, c] = if key c < key b then [c, b] else [b, c] := by
  simp [pop, adjustHeap, sink, pushHeap, parent]

/-- An element that joins at most two others keeps the order, unless these have one key and its own
is smaller: then it changes places with the first of them. -/
theorem push_stable (heap : IsHeap key v) (few : v.length ≤ 2)
    (apart : (∀ b ∈ v, key x < key b) → (v.map key).Nodup) (h : Stable key v l) :
    Stable key (push key v x) (l ++ [x]) := by
  have joined := @stable_append _ _ _ _ x _ _ h
  match v, few with
  | [], _ => exact joined
  | [a], _ =>
    rw [push_one]
    split
    · rename_i less
      exact @stable_swap _ _ _ _ a x [] [] _ less.ne' joined
    · exact joined
  | [a, b], _ =>
    rw [push_two]
    split
    · rename_i less
      have le := isHeap_head heap b (by simp)
      have distinct := apart (by simpa using ⟨less, less.trans_le le⟩)
      have away : key a ≠ key b := by simpa using distinct
      have last := @stable_swap _ _ _ _ b x [a] [] _ (less.trans_le le).ne' joined
      have first := @stable_swap _ _ _ _ a x [] [b] _ less.ne' last
      exact @stable_swap _ _ _ _ a b [x] [] _ away first
    · exact joined

theorem pop_stable [DecidableEq α] (few : v.length ≤ 2) (h : Stable key (a :: v) l) :
    Stable key (pop key (a :: v)) (l.erase a) := by
  have left : Stable key v (l.erase a) := by
    intro k
    rw [← List.erase_filter, ← h k, List.erase_filter, List.erase_cons_head]
  match v, few with
  | [], _ => exact left
  | [b], _ =>
    rw [pop_two]
    exact left
  | [b, c], _ =>
    rw [pop_three]
    split
    · rename_i less
      exact @stable_swap _ _ _ _ b c [] [] _ less.ne' left
    · exact left

end

end Pyrrha.Lib.Heap

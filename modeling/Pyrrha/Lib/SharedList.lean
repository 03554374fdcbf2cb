import Mathlib.Data.Finset.Card
import Mathlib.Data.List.Basic
import Pyrrha.Lib.Tally

/-!
Linked lists that share their tails: cells that count the pointers to them, from other cells and
from outside. A cell is freed when its count reaches 0.
-/

namespace Pyrrha.Lib

/-- What a cell holds, the cell after it, and how many pointers to it are counted. -/
structure Cell (α : Type) where
  value : α
  next : Option ℕ
  count : ℕ

/-- The cells by the order of allocation; `none` is one that has been freed. -/
abbrev Cells (α : Type) := List (Option (Cell α))

namespace Cells

variable {α : Type} {h k : Cells α} {a b : ℕ} {c : Cell α} {p q : Option ℕ} {l m : List α}
    {base outer : ℕ → ℕ}

def cell (h : Cells α) (a : ℕ) : Option (Cell α) := (h[a]?).join

def alloc (h : Cells α) (c : Cell α) : Cells α := h ++ [some c]

def write (h : Cells α) (a : ℕ) (c : Cell α) : Cells α := h.set a (some c)

def free (h : Cells α) (a : ℕ) : Cells α := h.set a none

/-- Whether a cell points to `a`. -/
def links (a : ℕ) (x : Option (Cell α)) : Bool := x.any fun c => decide (c.next = some a)

/-- How many cells point to `a`. -/
def inner (h : Cells α) (a : ℕ) : ℕ := tally (fun _ => 1) (links a) h

/-- One pointer, counted at the cell it points to. -/
def pointer (p : Option ℕ) (a : ℕ) : ℕ := if p = some a then 1 else 0

theorem pointer_none (a : ℕ) : pointer none a = 0 := rfl

theorem pointer_self (a : ℕ) : pointer (some a) a = 1 := if_pos rfl

/-! ### Cells -/

theorem get_of_cell (known : h.cell a = some c) : h[a]? = some (some c) := by
  unfold cell at known
  cases entry : h[a]? with
  | none =>
    rw [entry] at known
    cases known
  | some x =>
    rw [entry] at known
    exact congrArg some known

theorem cell_lt (known : h.cell a = some c) : a < h.length :=
  (List.getElem?_eq_some_iff.mp (get_of_cell known)).1

theorem cell_write (known : h.cell a = some c) (c' : Cell α) (b : ℕ) :
    (h.write a c').cell b = if b = a then some c' else h.cell b := by
  have lt := cell_lt known
  unfold write cell
  rw [List.getElem?_set]
  by_cases here : b = a
  · subst here
    rw [if_pos rfl, if_pos lt, if_pos rfl]
    rfl
  · rw [if_neg fun same => here same.symm, if_neg here]

theorem cell_free (h : Cells α) (a b : ℕ) : (h.free a).cell b = if b = a then none
    else h.cell b := by
  unfold free cell
  rw [List.getElem?_set]
  by_cases here : b = a
  · subst here
    rw [if_pos rfl, if_pos rfl]
    split <;> rfl
  · rw [if_neg fun same => here same.symm, if_neg here]

theorem cell_append (h k : Cells α) (b : ℕ) : cell (h ++ k) b = if b < h.length then h.cell b
    else k.cell (b - h.length) := by
  unfold cell
  rw [List.getElem?_append]
  split <;> rfl

theorem cell_alloc (h : Cells α) (c : Cell α) (b : ℕ) :
    (h.alloc c).cell b = if b = h.length then some c else h.cell b := by
  rw [alloc, cell_append]
  by_cases old : b < h.length
  · rw [if_pos old, if_neg (by omega)]
  · rw [if_neg old]
    by_cases here : b = h.length
    · rw [if_pos here, here, Nat.sub_self]
      rfl
    · have beyond : h.cell b = none := by
        rw [cell, List.getElem?_eq_none (by omega)]
        rfl
      have none_left : cell [some c] (b - h.length) = none := by
        rw [cell, List.getElem?_eq_none (by rw [List.length_singleton]; omega)]
        rfl
      rw [if_neg here, beyond, none_left]

/-! ### Pointers between cells -/

theorem inner_append (h k : Cells α) (b : ℕ) : inner (h ++ k) b = h.inner b + k.inner b :=
  tally_append h k

theorem links_some (b : ℕ) (c : Cell α) : (if links b (some c) = true then 1 else 0) =
    pointer c.next b := by
  unfold pointer links
  simp

theorem inner_alloc (h : Cells α) (c : Cell α) (b : ℕ) : (h.alloc c).inner b = h.inner b +
    pointer c.next b := by
  rw [alloc, inner_append, ← links_some]
  exact congrArg (h.inner b + ·) (tally_cons (l := []) (some c))

theorem inner_write (known : h.cell a = some c) (c' : Cell α) (b : ℕ) :
    (h.write a c').inner b + pointer c.next b = h.inner b + pointer c'.next b := by
  have written := tally_set (w := fun _ => 1) (p := links b) (y := some c') (get_of_cell known)
  rw [links_some, links_some] at written
  exact written

theorem inner_free (known : h.cell a = some c) (b : ℕ) : (h.free a).inner b + pointer c.next b =
    h.inner b := by
  have written := tally_set (w := fun _ => 1) (p := links b) (y := none) (get_of_cell known)
  rw [links_some] at written
  exact written

/-- Where a cell points, a pointer is counted. -/
theorem inner_pos (known : h.cell a = some c) (next : c.next = some b) : 0 < h.inner b := by
  have member := List.mem_of_getElem? (get_of_cell known)
  have passes : links b (some c) = true := decide_eq_true next
  exact le_tally (w := fun _ => 1) member passes

theorem exists_link (some_in : 0 < h.inner b) : ∃ a c, h.cell a = some c ∧ c.next = some b := by
  by_contra none_in
  have zero : h.inner b = 0 := by
    refine tally_zero fun x member => ?_
    cases x with
    | none => rfl
    | some c =>
      obtain ⟨a, entry⟩ := List.getElem?_of_mem member
      refine decide_eq_false fun next => none_in ⟨a, c, ?_, next⟩
      rw [cell, entry]
      rfl
  omega

/-! ### Lists -/

/-- The list that starts at a pointer. -/
inductive Holds (h : Cells α) : Option ℕ → List α → Prop where
  | nil : Holds h none []
  | cons {a : ℕ} {c : Cell α} {l : List α} : h.cell a = some c → Holds h c.next l →
      Holds h (some a) (c.value :: l)

theorem holds_unique (first : Holds h p l) (second : Holds h p m) : l = m := by
  induction first generalizing m with
  | nil =>
    cases second
    rfl
  | cons known _ ih =>
    cases second with
    | cons known' rest =>
      obtain rfl := Option.some.inj (known.symm.trans known')
      rw [ih rest]

/-- A list stays where the cells of a closed set that it starts in hold the same and point to the
same. -/
theorem holds_frame {S : ℕ → Prop} (closed : ∀ b c, S b → h.cell b = some c →
    ∀ d, c.next = some d → S d)
    (same : ∀ b c, S b → h.cell b = some c → ∃ n, k.cell b = some ⟨c.value, c.next, n⟩)
    (start : ∀ b, p = some b → S b) (holds : Holds h p l) : Holds k p l := by
  induction holds with
  | nil => exact .nil
  | @cons a c l known _ ih =>
    have inside := start a rfl
    obtain ⟨n, kept⟩ := same a c inside known
    exact Holds.cons (c := ⟨c.value, c.next, n⟩) kept (ih (closed a c inside known))

/-- The cells of a list are as many as its elements. -/
theorem holds_cells (holds : Holds h p l) :
    ∃ as : Finset ℕ, as.card = l.length ∧ ∀ a ∈ as, a < h.length ∧ ∃ m, Holds h (some a) m ∧
    m.length ≤ l.length := by
  induction holds with
  | nil => exact ⟨∅, rfl, fun a member => absurd member (Finset.notMem_empty a)⟩
  | @cons a c l known rest ih =>
    obtain ⟨as, card, each⟩ := ih
    have here : Holds h (some a) (c.value :: l) := .cons known rest
    have fresh : a ∉ as := by
      intro member
      obtain ⟨-, m, also, short⟩ := each a member
      rw [holds_unique also here, List.length_cons] at short
      omega
    refine ⟨insert a as, by rw [Finset.card_insert_of_notMem fresh, card, List.length_cons],
      fun b member => ?_⟩
    rcases Finset.mem_insert.mp member with rfl | old
    · exact ⟨cell_lt known, _, here, le_refl _⟩
    · obtain ⟨lt, m, holds, short⟩ := each b old
      exact ⟨lt, m, holds, by rw [List.length_cons]; omega⟩

theorem holds_length (holds : Holds h p l) : l.length ≤ h.length := by
  obtain ⟨as, card, each⟩ := holds_cells holds
  have inside : as ⊆ Finset.range h.length := fun a member => Finset.mem_range.mpr (each a member).1
  have most := Finset.card_le_card inside
  rw [Finset.card_range] at most
  omega

/-! ### Counts -/

/-- Each count is exact, `outer` being the pointers from outside: no pointer dangles, no cell is
left without one, and every list ends. -/
structure Counted (h : Cells α) (outer : ℕ → ℕ) : Prop where
  exact : ∀ a c, h.cell a = some c → c.count = outer a + h.inner a
  live : ∀ a, 0 < outer a + h.inner a → ∃ c, h.cell a = some c
  used : ∀ a c, h.cell a = some c → 0 < c.count
  ends : ∀ a c, h.cell a = some c → ∃ l, Holds h (some a) l

theorem counted_empty : Counted ([] : Cells α) fun _ => 0 where
  exact _ _ known := absurd (cell_lt known) (Nat.not_lt_zero _)
  live _ pos := absurd pos (Nat.lt_irrefl 0)
  used _ _ known := absurd (cell_lt known) (Nat.not_lt_zero _)
  ends _ _ known := absurd (cell_lt known) (Nat.not_lt_zero _)

theorem Counted.congr (counted : Counted h outer) (same : ∀ x, base x = outer x) :
    Counted h base := by
  obtain rfl : base = outer := funext same
  exact counted

theorem Counted.unreached (counted : Counted h outer) (none : h.cell a = none) : outer a = 0 ∧
    h.inner a = 0 := by
  by_contra some
  obtain ⟨c, known⟩ := counted.live a (by omega)
  rw [none] at known
  cases known

theorem Counted.pointed (counted : Counted h outer) (p : Option ℕ)
    (kept : ∀ a, p = some a → 0 < outer a) : ∃ l, Holds h p l := by
  cases p with
  | none => exact ⟨[], .nil⟩
  | some a =>
    have pos := kept a rfl
    obtain ⟨c, known⟩ := counted.live a (by omega)
    exact counted.ends a c known

theorem holds_alloc (c : Cell α) (holds : Holds h p l) : Holds (h.alloc c) p l := by
  refine holds_frame (S := fun b => True) (fun _ _ _ _ _ _ => trivial)
    (fun b d _ known => ⟨d.count, ?_⟩) (fun _ _ => trivial) holds
  rw [cell_alloc, if_neg (by have := cell_lt known; omega)]
  exact known

/-- Only the count of a cell changes. -/
theorem holds_recount (known : h.cell a = some c) (n : ℕ) (holds : Holds h p l) :
    Holds (h.write a { c with count := n }) p l := by
  refine holds_frame (S := fun b => True) (fun _ _ _ _ _ _ => trivial) (fun b d _ found => ?_)
    (fun _ _ => trivial) holds
  rw [cell_write known]
  split
  · rename_i here
    subst here
    obtain rfl := Option.some.inj (known.symm.trans found)
    exact ⟨n, rfl⟩
  · exact ⟨d.count, found⟩

/-- A cell that nothing points to is in no list that starts elsewhere. -/
theorem holds_free (alone : h.inner a = 0) (elsewhere : p ≠ some a) (holds : Holds h p l) :
    Holds (h.free a) p l := by
  refine holds_frame (S := fun b => b ≠ a) (fun b d _ known e next same => ?_)
    (fun b d other known => ⟨d.count, ?_⟩)
    (fun b start same => elsewhere (start.trans (congrArg some same))) holds
  · have linked := inner_pos known next
    rw [same] at linked
    omega
  · rw [cell_free, if_neg other]
    exact known

/-- A new cell takes over a pointer from outside. -/
theorem counted_alloc (v : α) (counted : Counted h fun x => base x + pointer p x) :
    Counted (h.alloc ⟨v, p, 1⟩) fun x => base x + pointer (some h.length) x := by
  have fresh : h.cell h.length = none := by
    rw [cell, List.getElem?_eq_none (le_refl _)]
    rfl
  obtain ⟨unused, unlinked⟩ := counted.unreached fresh
  have apart : ∀ x, x ≠ h.length → pointer (some h.length) x = 0 := fun x other =>
    if_neg fun same => other (Option.some.inj same).symm
  refine ⟨fun x c known => ?_, fun x pos => ?_, fun x c known => ?_, fun x c known => ?_⟩
  · rw [cell_alloc] at known
    rw [inner_alloc]
    split at known
    · rename_i here
      obtain rfl := Option.some.inj known
      subst here
      rw [pointer_self]
      dsimp only at unused ⊢
      omega
    · rename_i other
      have was := counted.exact x c known
      rw [apart x other]
      dsimp only
      omega
  · rw [cell_alloc]
    split
    · exact ⟨_, rfl⟩
    · rename_i other
      rw [inner_alloc, apart x other] at pos
      exact counted.live x (by dsimp only at pos ⊢; omega)
  · rw [cell_alloc] at known
    split at known
    · obtain rfl := Option.some.inj known
      exact Nat.one_pos
    · exact counted.used x c known
  · rw [cell_alloc] at known
    split at known
    · rename_i here
      subst here
      obtain ⟨l, holds⟩ := counted.pointed p fun a here => by
        subst here
        rw [pointer_self]
        exact Nat.succ_pos _
      refine ⟨v :: l, .cons (c := ⟨v, p, 1⟩) ?_ (holds_alloc _ holds)⟩
      rw [cell_alloc, if_pos rfl]
    · obtain ⟨l, holds⟩ := counted.ends x c known
      exact ⟨l, holds_alloc _ holds⟩

/-- A cell counts `n` pointers, as many as there are once `outer` has become `base`. -/
theorem counted_recount (counted : Counted h outer) (known : h.cell a = some c) {n : ℕ}
    (pos : 0 < n) (here : n = base a + h.inner a) (others : ∀ x, x ≠ a → base x = outer x) :
    Counted (h.write a { c with count := n }) base := by
  have inner : ∀ x, (h.write a { c with count := n }).inner x = h.inner x := fun x =>
    Nat.add_right_cancel (inner_write known { c with count := n } x)
  have ends : ∀ x d, h.cell x = some d →
      ∃ l, Holds (h.write a { c with count := n }) (some x) l := by
    intro x d found
    obtain ⟨l, holds⟩ := counted.ends x d found
    exact ⟨l, holds_recount known n holds⟩
  refine ⟨fun x d found => ?_, fun x reached => ?_, fun x d found => ?_, fun x d found => ?_⟩
  · rw [cell_write known] at found
    rw [inner]
    split at found
    · rename_i same
      obtain rfl := Option.some.inj found
      rw [same]
      exact here
    · rename_i other
      rw [others x other]
      exact counted.exact x d found
  · rw [inner] at reached
    rw [cell_write known]
    split
    · exact ⟨_, rfl⟩
    · rename_i other
      rw [others x other] at reached
      exact counted.live x reached
  · rw [cell_write known] at found
    split at found
    · obtain rfl := Option.some.inj found
      exact pos
    · exact counted.used x d found
  · rw [cell_write known] at found
    split at found
    · rename_i same
      exact ends x c (same ▸ known)
    · exact ends x d found

theorem counted_retain (counted : Counted h outer) (known : h.cell a = some c) :
    Counted (h.write a { c with count := c.count + 1 }) fun x => outer x + pointer (some a) x := by
  refine counted_recount counted known (Nat.succ_pos _) ?_ fun x other => ?_
  · rw [pointer_self, counted.exact a c known]
    omega
  · rw [pointer, if_neg fun same => other (Option.some.inj same).symm, Nat.add_zero]

theorem counted_lower (counted : Counted h fun x => base x + pointer (some a) x)
    (known : h.cell a = some c)
    (several : 1 < c.count) : Counted (h.write a { c with count := c.count - 1 }) base := by
  refine counted_recount counted known (by omega) ?_ fun x other => ?_
  · have was := counted.exact a c known
    rw [pointer_self] at was
    omega
  · rw [pointer, if_neg fun same => other (Option.some.inj same).symm, Nat.add_zero]

/-- The last pointer to a cell is gone: its own pointer is left. -/
theorem counted_free (counted : Counted h fun x => base x + pointer (some a) x)
    (known : h.cell a = some c)
    (last : c.count = 1) : (base a = 0 ∧ h.inner a = 0) ∧ Counted (h.free a) fun x =>
      base x + pointer c.next x := by
  have was := counted.exact a c known
  rw [pointer_self] at was
  have alone : base a = 0 ∧ h.inner a = 0 := by omega
  have apart : ∀ x, x ≠ a → pointer (some a) x = 0 := fun x other => if_neg fun same =>
    other (Option.some.inj same).symm
  have inner : ∀ x, (h.free a).inner x + pointer c.next x = h.inner x := inner_free known
  refine ⟨alone, fun x d found => ?_, fun x reached => ?_, fun x d found => ?_, fun x d found => ?_⟩
  · rw [cell_free] at found
    split at found
    · cases found
    · rename_i other
      have exact := counted.exact x d found
      have left := inner x
      rw [apart x other] at exact
      omega
  · have left := inner x
    have other : x ≠ a := by
      rintro rfl
      omega
    rw [cell_free, if_neg other]
    refine counted.live x ?_
    omega
  · rw [cell_free] at found
    split at found
    · cases found
    · exact counted.used x d found
  · rw [cell_free] at found
    split at found
    · cases found
    · rename_i other
      obtain ⟨l, holds⟩ := counted.ends x d found
      exact ⟨l, holds_free alone.2 (fun same => other (Option.some.inj same)) holds⟩

/-- Without pointers from outside every cell has been freed. -/
theorem counted_all_freed (counted : Counted h fun _ => 0) (a : ℕ) : h.cell a = none := by
  by_contra some
  obtain ⟨c, known⟩ := Option.ne_none_iff_exists'.mp some
  have longer : ∀ n, ∃ b d l, h.cell b = .some d ∧ Holds h (.some b) l ∧ n ≤ l.length := by
    intro n
    induction n with
    | zero =>
      obtain ⟨l, holds⟩ := counted.ends a c known
      exact ⟨a, c, l, known, holds, Nat.zero_le _⟩
    | succ n ih =>
      obtain ⟨b, d, l, found, holds, long⟩ := ih
      have pos := counted.used b d found
      rw [counted.exact b d found, Nat.zero_add] at pos
      obtain ⟨b', d', found', next⟩ := exists_link pos
      exact ⟨b', d', d'.value :: l, found', .cons found' (next ▸ holds), by rw [List.length_cons]; omega⟩
  obtain ⟨b, d, l, -, holds, long⟩ := longer (h.length + 1)
  have short := holds_length holds
  omega

/-! ### New lists -/

/-- The cells of a new list, the first one at `n`. -/
def chain : ℕ → List α → Cells α
  | _, [] => []
  | n, v :: vs => some ⟨v, if vs.isEmpty then none else some (n + 1), 1⟩ :: chain (n + 1) vs

/-- Where it starts. -/
def chainStart (n : ℕ) (vs : List α) : Option ℕ := if vs.isEmpty then none else some n

theorem chain_cons (front : Cells α) (v : α) (vs : List α) :
    front ++ chain front.length (v :: vs) =
      front.alloc ⟨v, chainStart (front.length + 1) vs, 1⟩ ++
        chain (front.alloc ⟨v, chainStart (front.length + 1) vs, 1⟩).length vs := by
  rw [alloc, List.length_append, List.append_assoc]
  rfl

theorem length_chain (n : ℕ) (vs : List α) : (chain n vs).length = vs.length := by
  induction vs generalizing n with
  | nil => rfl
  | cons v vs ih => rw [chain, List.length_cons, List.length_cons, ih]

theorem exists_chain (n : ℕ) (vs : List α) {i : ℕ} (lt : i < vs.length) :
    ∃ c, (chain n vs).cell i = some c := by
  induction vs generalizing n i with
  | nil => cases lt
  | cons v vs ih =>
    cases i with
    | zero => exact ⟨_, rfl⟩
    | succ i => exact ih (n + 1) (Nat.lt_of_succ_lt_succ lt)

theorem holds_chain (front : Cells α) (vs : List α) :
    Holds (front ++ chain front.length vs) (chainStart front.length vs) vs := by
  induction vs generalizing front with
  | nil => exact .nil
  | cons v vs ih =>
    rw [chain_cons]
    have rest := ih (front.alloc ⟨v, chainStart (front.length + 1) vs, 1⟩)
    have first : cell (front.alloc ⟨v, chainStart (front.length + 1) vs, 1⟩ ++
        chain (front.alloc ⟨v, chainStart (front.length + 1) vs, 1⟩).length vs) front.length =
          some ⟨v, chainStart (front.length + 1) vs, 1⟩ := by
      rw [cell_append, if_pos (by simp [alloc]), cell_alloc, if_pos rfl]
    refine Holds.cons first ?_
    have next : (front.alloc ⟨v, chainStart (front.length + 1) vs, 1⟩).length = front.length +
      1 := by simp [alloc]
    rw [next] at rest ⊢
    exact rest

/-- The cells of a chain count one pointer each, and their lists end. -/
theorem cell_chain (front : Cells α) (vs : List α) (new : front.length ≤ a)
    (known : cell (front ++ chain front.length vs) a = some c) :
    c.count = 1 ∧ a < front.length + vs.length ∧
    ∃ l, Holds (front ++ chain front.length vs) (some a) l := by
  induction vs generalizing front with
  | nil =>
    have lt := cell_lt known
    rw [chain, List.append_nil] at lt
    omega
  | cons v vs ih =>
    by_cases first : a = front.length
    · have holds := holds_chain front (v :: vs)
      subst first
      rw [cell_append, if_neg (Nat.lt_irrefl _), Nat.sub_self] at known
      obtain rfl := Option.some.inj known
      exact ⟨rfl, by rw [List.length_cons]; omega, _, holds⟩
    · rw [chain_cons] at known ⊢
      have next : (front.alloc ⟨v, chainStart (front.length + 1) vs, 1⟩).length = front.length +
        1 := by simp [alloc]
      obtain ⟨count, lt, ends⟩ := ih _ (by omega) known
      exact ⟨count, by rw [List.length_cons]; omega, ends⟩

theorem inner_chain (n : ℕ) (vs : List α) (b : ℕ) :
    (chain n vs).inner b + pointer (chainStart n vs) b = if n ≤ b ∧ b < n + vs.length then 1
      else 0 := by
  induction vs generalizing n with
  | nil => rw [if_neg (by rw [List.length_nil]; omega)]; rfl
  | cons v vs ih =>
    have rest := ih (n + 1)
    have split : (chain n (v :: vs)).inner b = pointer (chainStart (n + 1) vs) b +
        (chain (n + 1) vs).inner b := by
      rw [← links_some b ⟨v, chainStart (n + 1) vs, 1⟩]
      exact tally_cons _
    have start : pointer (chainStart n (v :: vs)) b = if b = n then 1 else 0 := by
      unfold pointer chainStart
      simp [eq_comm]
    rw [split, start, List.length_cons]
    by_cases here : b = n
    · rw [if_pos here, if_pos (by omega)]
      rw [if_neg (by omega)] at rest
      omega
    · rw [if_neg here, Nat.add_zero, Nat.add_comm, rest]
      by_cases inside : n + 1 ≤ b ∧ b < n + 1 + vs.length
      · rw [if_pos inside, if_pos (by omega)]
      · rw [if_neg inside, if_neg (by omega)]

theorem holds_append (k : Cells α) (holds : Holds h p l) : Holds (h ++ k) p l := by
  refine holds_frame (S := fun b => True) (fun _ _ _ _ _ _ => trivial)
    (fun b d _ known => ⟨d.count, ?_⟩) (fun _ _ => trivial) holds
  rw [cell_append, if_pos (cell_lt known)]
  exact known

/-- A new list has one pointer from outside. -/
theorem counted_chain (counted : Counted h base) (vs : List α) :
    Counted (h ++ chain h.length vs) fun x => base x + pointer (chainStart h.length vs) x := by
  have inner : ∀ x, inner (h ++ chain h.length vs) x + pointer (chainStart h.length vs) x =
      h.inner x + if h.length ≤ x ∧ x < h.length + vs.length then 1 else 0 := by
    intro x
    rw [inner_append, Nat.add_assoc, inner_chain]
  have unused : ∀ x, h.length ≤ x → base x = 0 ∧ h.inner x = 0 := by
    intro x beyond
    refine counted.unreached ?_
    rw [cell, List.getElem?_eq_none beyond]
    rfl
  have old : ∀ x, x < h.length → cell (h ++ chain h.length vs) x = h.cell x := fun x lt => by
    rw [cell_append, if_pos lt]
  refine ⟨fun x c known => ?_, fun x reached => ?_, fun x c known => ?_, fun x c known => ?_⟩
  · have sum := inner x
    by_cases lt : x < h.length
    · rw [if_neg (by omega)] at sum
      rw [old x lt] at known
      have was := counted.exact x c known
      omega
    · obtain ⟨count, below, -⟩ := cell_chain h vs (by omega) known
      obtain ⟨outside, inside⟩ := unused x (by omega)
      rw [if_pos (by omega)] at sum
      omega
  · have sum := inner x
    by_cases lt : x < h.length
    · rw [if_neg (by omega)] at sum
      rw [old x lt]
      exact counted.live x (by omega)
    · obtain ⟨outside, inside⟩ := unused x (by omega)
      have below : x < h.length + vs.length := by
        by_contra beyond
        rw [if_neg (by omega)] at sum
        omega
      rw [cell_append, if_neg lt]
      exact exists_chain h.length vs (by omega)
  · by_cases lt : x < h.length
    · rw [old x lt] at known
      exact counted.used x c known
    · rw [(cell_chain h vs (by omega) known).1]
      exact Nat.one_pos
  · by_cases lt : x < h.length
    · rw [old x lt] at known
      obtain ⟨l, holds⟩ := counted.ends x c known
      exact ⟨l, holds_append _ holds⟩
    · exact (cell_chain h vs (by omega) known).2.2

/-- The last cell of a chain. -/
theorem cell_last (n : ℕ) (vs : List α) (v : α) : (chain n (vs ++ [v])).cell vs.length =
    some ⟨v, none, 1⟩ := by
  induction vs generalizing n with
  | nil => rfl
  | cons u vs ih => exact ih (n + 1)

/-- One more cell, once the last one points to it. -/
theorem chain_concat (n : ℕ) (vs : List α) (v w : α) :
    chain n (vs ++ [v] ++ [w]) =
      (chain n (vs ++ [v])).set vs.length (some ⟨v, some (n + vs.length + 1), 1⟩) ++
      [some ⟨w, none, 1⟩] := by
  induction vs generalizing n with
  | nil => rfl
  | cons u vs ih =>
    have rest := ih (n + 1)
    have place : n + (u :: vs).length + 1 = n + 1 + vs.length + 1 := by rw [List.length_cons]; omega
    rw [place]
    have first : (vs ++ [v]).isEmpty = false := by cases vs <;> rfl
    have second : (vs ++ [v] ++ [w]).isEmpty = false := by cases vs <;> rfl
    show some ⟨u, if (vs ++ [v] ++ [w]).isEmpty then none else some (n + 1), 1⟩ :: chain (n + 1)
      (vs ++ [v] ++ [w]) = (some ⟨u, if (vs ++ [v]).isEmpty then none else some (n + 1), 1⟩ ::
        (chain (n + 1) (vs ++ [v])).set vs.length _) ++ _
    rw [first, second, rest, List.cons_append]

end Cells

end Pyrrha.Lib

import Mathlib.Data.List.Nodup
import Mathlib.Data.List.Rotate
import Mathlib.Data.Nat.ModEq
import Mathlib.Data.Nat.Notation

/-!
A cursor that goes round a ring of `n` places: each round stops at the first place behind the cursor
that it accepts, and the next one goes on from there. And a ring whose members come and go, with
turns that take the first ready one.
-/

namespace Pyrrha.Lib

/-- The places behind a cursor, its own as the last one. -/
def ringFrom (n cursor : ℕ) : List ℕ := (List.range' 1 n).map fun i => (i + cursor) % n

/-- A round: where the cursor stands, what it accepts, and where it stops. -/
structure Round where
  cursor : ℕ
  accepts : ℕ → Prop
  place : ℕ

/-- The round stops at the first place it accepts. -/
def Round.Stops (n : ℕ) (r : Round) : Prop :=
  r.accepts r.place ∧ ∃ before after, ringFrom n r.cursor = before ++ r.place :: after ∧
    ∀ i ∈ before, ¬r.accepts i

/-- Each round begins where the one before it has stopped. -/
def Linked (n : ℕ) : ℕ → List Round → Prop
  | _, [] => True
  | cursor, r :: rest => r.cursor = cursor ∧ r.Stops n ∧ Linked n r.place rest

variable {n c d j k : ℕ} {r : Round} {rounds : List Round}

/-! ### The ring -/

theorem ringFrom_length (n c : ℕ) : (ringFrom n c).length = n := by simp [ringFrom]

theorem ringFrom_at (inside : k < n) : (ringFrom n c)[k]? = some ((k + 1 + c) % n) := by
  simp [ringFrom, inside, Nat.add_comm 1 k]

theorem ringFrom_nodup (n c : ℕ) : (ringFrom n c).Nodup := by
  apply List.Nodup.map_on
  · intro i at_i i' at_i' same
    rw [List.mem_range'_1] at at_i at_i'
    have congruent : i % n = i' % n := Nat.ModEq.add_right_cancel' c same
    rcases Nat.eq_or_lt_of_le (Nat.le_of_lt_succ (show i < n + 1 by omega)) with rfl | below
    · rcases Nat.eq_or_lt_of_le (Nat.le_of_lt_succ (show i' < i + 1 by omega)) with rfl | below'
      · rfl
      · rw [Nat.mod_self, Nat.mod_eq_of_lt below'] at congruent
        omega
    · rcases Nat.eq_or_lt_of_le (Nat.le_of_lt_succ (show i' < n + 1 by omega)) with rfl | below'
      · rw [Nat.mod_self, Nat.mod_eq_of_lt below] at congruent
        omega
      · rwa [Nat.mod_eq_of_lt below, Nat.mod_eq_of_lt below'] at congruent
  · exact List.nodup_range'

/-- Every place is somewhere behind the cursor. -/
theorem exists_distance (inside : j < n) (c : ℕ) : ∃ d < n, (d + 1 + c) % n = j := by
  have below : c % n < n := Nat.mod_lt c (by omega)
  have parts : c = c % n + n * (c / n) := (Nat.mod_add_div c n).symm
  by_cases ahead : c % n < j
  · refine ⟨j - c % n - 1, by omega, ?_⟩
    have sum : j - c % n - 1 + 1 + c = j + n * (c / n) := by omega
    rw [sum, Nat.add_mul_mod_self_left, Nat.mod_eq_of_lt inside]
  · refine ⟨j + n - c % n - 1, by omega, ?_⟩
    have sum : j + n - c % n - 1 + 1 + c = j + n + n * (c / n) := by omega
    rw [sum, Nat.add_mul_mod_self_left, Nat.add_mod_right, Nat.mod_eq_of_lt inside]

/-! ### Rounds -/

/-- A round that accepts a place stops there or brings the cursor nearer to it. -/
theorem stops_nearer (stops : r.Stops n) (accepted : r.accepts j) (inside : d < n)
    (at_j : (d + 1 + r.cursor) % n = j) : r.place = j ∨ ∃ e < d, (e + 1 + r.place) % n = j := by
  obtain ⟨-, before, after, ring, passed⟩ := stops
  have bound : before.length < n := by
    have len := congrArg List.length ring
    rw [ringFrom_length, List.length_append, List.length_cons] at len
    omega
  have place : (before.length + 1 + r.cursor) % n = r.place := by
    have here := ringFrom_at (c := r.cursor) bound
    rw [ring] at here
    simpa using here.symm
  rcases Nat.lt_trichotomy d before.length with ahead | here | behind
  · have at_d := ringFrom_at (c := r.cursor) inside
    rw [ring, List.getElem?_append_left ahead, at_j] at at_d
    exact absurd accepted (passed j (List.mem_of_getElem? at_d))
  · left
    rw [← place, ← here, at_j]
  · refine .inr ⟨d - before.length - 1, by omega, ?_⟩
    have sum : d - before.length - 1 + 1 + (before.length + 1 + r.cursor) = d + 1 +
      r.cursor := by omega
    rw [← place, Nat.add_mod_mod, sum, at_j]

theorem linked_reaches (linked : Linked n c rounds) (accepted : ∀ r ∈ rounds, r.accepts j)
    (enough : d < rounds.length)
    (inside : d < n) (at_j : (d + 1 + c) % n = j) : ∃ r ∈ rounds, r.place = j := by
  induction rounds generalizing c d with
  | nil => cases enough
  | cons r rest ih =>
    obtain ⟨rfl, stops, linked⟩ := linked
    rcases stops_nearer stops (accepted r List.mem_cons_self) inside at_j with
      here | ⟨e, nearer, at_e⟩
    · exact ⟨r, List.mem_cons_self, here⟩
    · rw [List.length_cons] at enough
      obtain ⟨r', member, here⟩ :=
        ih linked (fun r' later => accepted r' (List.mem_cons_of_mem r later)) (by omega)
          (by omega) at_e
      exact ⟨r', List.mem_cons_of_mem r member, here⟩

/-- As many rounds as there are places stop at every place that all of them accept. -/
theorem linked_visits (linked : Linked n c rounds) (enough : n ≤ rounds.length) (inside : j < n)
    (accepted : ∀ r ∈ rounds, r.accepts j) : ∃ r ∈ rounds, r.place = j := by
  obtain ⟨d, below, at_j⟩ := exists_distance inside c
  exact linked_reaches linked accepted (by omega) below at_j

theorem linked_append {first second : List Round} (linked : Linked n c (first ++ second)) :
    Linked n c first ∧ ∃ c', Linked n c' second := by
  induction first generalizing c with
  | nil => exact ⟨trivial, c, linked⟩
  | cons r rest ih =>
    obtain ⟨begins, stops, linked⟩ := linked
    obtain ⟨front, back⟩ := ih linked
    exact ⟨⟨begins, stops, front⟩, back⟩

/-! ### A ring whose members come and go -/

variable {α : Type}

/-- A turn: the ready members in the order in which they are looked at, and the one that is
taken. -/
structure RingTurn (α : Type) where
  ready : List α
  taken : α
  deriving DecidableEq

/-- A member that was ready when another one was taken, and in every turn since, and has not been
taken, waits for that one to let it go first. The last turn is the first of the list. -/
def Waits : List (RingTurn α) → α → α → Prop
  | [], _, _ => False
  | t :: past, b, a => b ∈ t.ready ∧ b ≠ t.taken ∧ (t.taken = a ∨ Waits past b a)

/-- In the order of the ring, whoever waits for another one comes before it. -/
def Queued (past : List (RingTurn α)) (ring : List α) : Prop :=
  ∀ b ∈ ring, ∀ a ∈ ring, Waits past b a → [b, a].Sublist ring

/-- The turns, of which each takes somebody for whom nobody that is ready waits. -/
def Orderly : List (RingTurn α) → List (RingTurn α) → Prop
  | _, [] => True
  | past, t :: rest => (∀ b ∈ t.ready, ¬Waits past b t.taken) ∧ Orderly (t :: past) rest

/-- Between two turns that take one member, every other one that is ready in all of them is
taken. -/
def FairTurns (ts : List (RingTurn α)) : Prop :=
  ∀ before first between last after, ts = before ++ first :: (between ++ last :: after) →
    first.taken = last.taken → (∀ t ∈ between, t.taken ≠ first.taken) →
      ∀ b, b ≠ first.taken → b ∈ first.ready → (∀ t ∈ between, b ∈ t.ready) → b ∈ last.ready →
        ∃ t ∈ between, t.taken = b

theorem sublist_skip {a : α} {l front rear : List α} (out : a ∉ front)
    (h : (a :: l).Sublist (front ++ rear)) : (a :: l).Sublist rear := by
  induction front with
  | nil => exact h
  | cons c front ih =>
    rw [List.mem_cons, not_or] at out
    cases h with
    | cons _ h => exact ih out.2 h
    | cons_cons _ h => exact absurd rfl out.1

/-- Two members are in one order only. -/
theorem order_unique {a b : α} {l : List α} (nodup : l.Nodup) (ab : [a, b].Sublist l)
    (ba : [b, a].Sublist l) : False := by
  induction l with
  | nil => cases ab
  | cons c l ih =>
    rw [List.nodup_cons] at nodup
    cases ab with
    | cons _ ab =>
      cases ba with
      | cons _ ba => exact ih nodup.2 ab ba
      | cons_cons _ ba => exact nodup.1 (ab.subset (List.mem_cons_of_mem a List.mem_cons_self))
    | cons_cons _ ab =>
      cases ba with
      | cons _ ba => exact nodup.1 (ba.subset (List.mem_cons_of_mem b List.mem_cons_self))
      | cons_cons _ ba => exact nodup.1 (List.singleton_sublist.mp ab)

/-- A member that is ready comes behind the one that is taken. -/
theorem taken_first {t : RingTurn α} {b : α} (head : t.ready.head? = some t.taken)
    (member : b ∈ t.ready) (other : b ≠ t.taken) : [t.taken, b].Sublist t.ready := by
  obtain ⟨rest, ready⟩ := List.head?_eq_some_iff.mp head
  rw [ready] at member ⊢
  rcases List.mem_cons.mp member with same | later
  · exact absurd same other
  · exact (List.singleton_sublist.mpr later).cons_cons t.taken

theorem waits_ne {past : List (RingTurn α)} {a b : α} (h : Waits past b a) : b ≠ a := by
  induction past with
  | nil => exact h.elim
  | cons t past ih =>
    rcases h with ⟨-, other, rfl | before⟩
    · exact other
    · exact ih before

theorem waits_since {past between : List (RingTurn α)} {a b : α} (h : Waits past b a)
    (since : ∀ t ∈ between, b ∈ t.ready ∧ b ≠ t.taken) : Waits (between ++ past) b a := by
  induction between with
  | nil => exact h
  | cons t between ih =>
    have here := since t List.mem_cons_self
    exact ⟨here.1, here.2, .inr (ih fun u member => since u (List.mem_cons_of_mem t member))⟩

theorem orderly_behind {past after : List (RingTurn α)} (before : List (RingTurn α))
    (turns : Orderly past (before ++ after)) :
    Orderly (before.reverse ++ past) after := by
  induction before generalizing past with
  | nil => exact turns
  | cons t before ih =>
    have later := ih turns.2
    rw [List.reverse_cons, List.append_assoc]
    exact later

theorem orderly_fair {ts : List (RingTurn α)} (turns : Orderly [] ts) : FairTurns ts := by
  rintro before first between last after rfl same - b other at_first at_between at_last
  by_contra missed
  have behind := orderly_behind before turns
  obtain ⟨served, -⟩ := orderly_behind between behind.2
  refine served b at_last (waits_since ⟨at_first, other, .inl same⟩ fun t member => ?_)
  have inside : t ∈ between := List.mem_reverse.mp member
  exact ⟨at_between t inside, fun taken => missed ⟨t, inside, taken.symm⟩⟩

/-- Two members of a list are in one order or the other. -/
theorem order_total {a b : α} {l : List α} (at_a : a ∈ l) (at_b : b ∈ l) (other : a ≠ b) :
    [a, b].Sublist l ∨ [b, a].Sublist l := by
  induction l with
  | nil => cases at_a
  | cons c l ih =>
    rcases List.mem_cons.mp at_a with rfl | later
    · have behind := (List.mem_cons.mp at_b).resolve_left (Ne.symm other)
      exact .inl ((List.singleton_sublist.mpr behind).cons_cons a)
    · rcases List.mem_cons.mp at_b with rfl | later'
      · exact .inr ((List.singleton_sublist.mpr later).cons_cons b)
      · exact (ih later later').imp (fun h => h.cons c) fun h => h.cons c

/-- Whoever is ready besides the member taken comes behind it. -/
theorem ready_rear {t : RingTurn α} {front rear : List α} {b : α}
    (nodup : (front ++ t.taken :: rear).Nodup)
    (looked : t.ready.Sublist (front ++ t.taken :: rear)) (head : t.ready.head? = some t.taken)
    (ready : b ∈ t.ready) (other : b ≠ t.taken) : b ∈ rear := by
  have first := (taken_first head ready other).trans looked
  rw [List.nodup_append] at nodup
  have out : t.taken ∉ front := fun inside =>
    nodup.2.2 t.taken inside t.taken List.mem_cons_self rfl
  cases sublist_skip out first with
  | cons _ h => exact absurd (h.subset List.mem_cons_self) (List.nodup_cons.mp nodup.2.1).1
  | cons_cons _ h => exact List.singleton_sublist.mp h

theorem rotate_front (a : α) (l : List α) : (a :: l).rotate 1 = l ++ [a] := by simp

/-- A member stands at the front of one rotation only. -/
theorem rotated_front {a : α} {l l' : List α} (nodup : (a :: l).Nodup)
    (turned : (a :: l).IsRotated (a :: l')) : l = l' := by
  obtain ⟨n, inside, same⟩ := List.isRotated_iff_mod.mp turned
  rcases Nat.lt_or_eq_of_le inside with below | whole
  · have front := List.head?_rotate below
    rw [same, List.head?_cons] at front
    cases n with
    | zero =>
      rw [List.rotate_zero] at same
      exact (List.cons.inj same).2
    | succ n =>
      rw [List.getElem?_cons_succ] at front
      exact absurd (List.mem_of_getElem? front.symm) (List.nodup_cons.mp nodup).1
  · rw [whole, List.rotate_length] at same
    exact (List.cons.inj same).2

/-- Rotated to one of its members, a list without repetitions is what was behind that member and
then what was ahead. -/
theorem rotate_to [DecidableEq α] {l front rear : List α} {a : α} {n : ℕ} (nodup : l.Nodup)
    (turned : l.rotate n = front ++ a :: rear) :
    l.rotate (l.idxOf a) = a :: rear ++ front ∧ (l.erase a).rotate (l.idxOf a) = rear ++ front := by
  have inside : a ∈ l := by
    have member : a ∈ l.rotate n := by simp [turned]
    exact List.mem_rotate.mp member
  obtain ⟨ahead, behind, rfl, out⟩ := List.eq_append_cons_of_mem inside
  have position : (ahead ++ a :: behind).idxOf a = ahead.length := by
    rw [List.idxOf_append_of_notMem out, List.idxOf_cons_self, Nat.add_zero]
  have whole : (a :: (behind ++ ahead)).IsRotated (a :: (rear ++ front)) := by
    have here : (ahead ++ a :: behind).IsRotated (front ++ a :: rear) := ⟨n, turned⟩
    have left : (ahead ++ a :: behind).IsRotated (a :: (behind ++ ahead)) := List.isRotated_append
    have right : (front ++ a :: rear).IsRotated (a :: (rear ++ front)) := List.isRotated_append
    exact (left.symm.trans here).trans right
  have distinct : (a :: (behind ++ ahead)).Nodup :=
    (List.IsRotated.nodup_iff (List.isRotated_append : (ahead ++ a :: behind).IsRotated
      (a :: behind ++ ahead))).mp nodup
  have same := rotated_front distinct whole
  rw [position, List.erase_append_right _ out, List.erase_cons_head, List.rotate_append_length_eq,
    List.rotate_append_length_eq, List.cons_append, List.cons_append, same]
  exact ⟨rfl, rfl⟩

/-! ### The ring of a scan -/

section Scan

variable [DecidableEq α] {past : List (RingTurn α)} {t : RingTurn α}
    {scan next front rear : List α} {a : α}

/-- A scan, with the member that was taken last put at its end. -/
def behindLast (past : List (RingTurn α)) (scan : List α) : List α :=
  match past with
  | [] => scan
  | t :: _ => if scan.head? = some t.taken then scan.rotate 1 else scan

/-- The scan does not begin with the member taken last, unless nobody else is ready in both
turns. -/
def MovedOn (past : List (RingTurn α)) (scan ready : List α) : Prop :=
  ∀ t ∈ past.head?, scan.head? = some t.taken → t.taken ∈ ready →
    ∀ b ∈ ready, b ∈ t.ready → b = t.taken

theorem behindLast_cons : behindLast (t :: past) scan = if scan.head? =
    some t.taken then scan.rotate 1 else scan := rfl

theorem mem_behindLast {b : α} : b ∈ behindLast past scan ↔ b ∈ scan := by
  cases past with
  | nil => rfl
  | cons t past =>
    rw [behindLast_cons]
    split
    · exact List.mem_rotate
    · rfl

theorem behindLast_nodup (nodup : scan.Nodup) : (behindLast past scan).Nodup := by
  cases past with
  | nil => exact nodup
  | cons t past =>
    rw [behindLast_cons]
    split
    · exact List.nodup_rotate.mpr nodup
    · exact nodup

/-- What comes behind a member of the scan stays in its order. -/
theorem rear_sublist : rear.Sublist (behindLast past (front ++ a :: rear)) := by
  have whole : rear.Sublist (front ++ a :: rear) :=
    (List.sublist_cons_self a rear).trans (List.sublist_append_right front _)
  cases past with
  | nil => exact whole
  | cons t past =>
    rw [behindLast_cons]
    split
    · cases front with
      | nil =>
        rw [List.nil_append, rotate_front]
        exact List.sublist_append_left rear [a]
      | cons c front =>
        rw [List.cons_append, rotate_front]
        have inner : rear.Sublist (front ++ a :: rear) :=
          (List.sublist_cons_self a rear).trans (List.sublist_append_right front _)
        exact inner.trans (List.sublist_append_left _ [c])
    · exact whole

/-- A turn that takes the first ready member of the scan passes over nobody. -/
theorem queued_served {b : α} (nodup : (front ++ t.taken :: rear).Nodup)
    (looked : t.ready.Sublist (front ++ t.taken :: rear)) (head : t.ready.head? = some t.taken)
    (queued : Queued past (behindLast past (front ++ t.taken :: rear)))
    (moved : MovedOn past (front ++ t.taken :: rear) t.ready) (ready : b ∈ t.ready) :
    ¬Waits past b t.taken := by
  intro waits
  have other := waits_ne waits
  have at_rear := ready_rear nodup looked head ready other
  have inside : b ∈ front ++ t.taken :: rear := looked.subset ready
  have ahead := queued b (mem_behindLast.mpr inside) t.taken (mem_behindLast.mpr (by simp)) waits
  refine order_unique (behindLast_nodup nodup) ahead ?_
  have straight : [t.taken, b].Sublist (front ++ t.taken :: rear) :=
    (taken_first head ready other).trans looked
  cases past with
  | nil => exact straight
  | cons u past =>
    rw [behindLast_cons]
    split
    · rename_i begins
      cases front with
      | nil =>
        -- the scan begins with the last one taken, which is ready: nobody waits
        have same : t.taken = u.taken := Option.some.inj begins
        have last := moved u rfl begins (same ▸ List.mem_of_head? head) b ready waits.1
        exact absurd (last.trans same.symm) other
      | cons c front =>
        rw [List.cons_append, rotate_front]
        have pair : [t.taken, b].Sublist (t.taken :: rear) :=
          (List.singleton_sublist.mpr at_rear).cons_cons t.taken
        exact (pair.trans (List.sublist_append_right front _)).trans
          (List.sublist_append_left _ [c])
    · exact straight

/-- The next scan begins with the member taken, or behind it if that has gone: the others keep their
order. -/
theorem queued_next (nodup : (front ++ t.taken :: rear).Nodup)
    (looked : t.ready.Sublist (front ++ t.taken :: rear)) (head : t.ready.head? = some t.taken)
    (queued : Queued past (behindLast past (front ++ t.taken :: rear)))
    (goes : next = t.taken :: rear ++ front ∨ next = rear ++ front) :
    Queued (t :: past) (behindLast (t :: past) next) := by
  have gone : t.taken ∉ rear ++ front := by
    rw [List.nodup_append, List.nodup_cons] at nodup
    intro inside
    rcases List.mem_append.mp inside with behind | ahead
    · exact nodup.2.1.1 behind
    · exact nodup.2.2 t.taken ahead t.taken List.mem_cons_self rfl
  obtain ⟨tail, shape, stays⟩ : ∃ tail, behindLast (t :: past) next = rear ++ front ++ tail ∧
      ∀ a ∈ tail, a = t.taken := by
    rcases goes with rfl | rfl
    · refine ⟨[t.taken], ?_, fun a member => List.mem_singleton.mp member⟩
      rw [behindLast_cons, List.cons_append, if_pos List.head?_cons, rotate_front]
    · refine ⟨[], ?_, fun a member => (List.not_mem_nil member).elim⟩
      have other : ¬(rear ++ front).head? = some t.taken :=
        fun begins => gone (List.mem_of_head? begins)
      rw [behindLast_cons, if_neg other, List.append_nil]
  rw [shape]
  intro b _ a at_a waits
  have at_rear := ready_rear nodup looked head waits.1 waits.2.1
  have other := waits_ne waits
  rw [List.append_assoc] at at_a ⊢
  rcases List.mem_append.mp at_a with behind | later
  · have before : Waits past b a := by
      refine waits.2.2.resolve_left fun same => gone ?_
      rw [same]
      exact List.mem_append_left front behind
    have whole : ∀ c ∈ rear, c ∈ behindLast past (front ++ t.taken :: rear) :=
      fun c member => rear_sublist.subset member
    have ordered := queued b (whole b at_rear) a (whole a behind) before
    rcases order_total at_rear behind other with kept | turned
    · exact kept.trans (List.sublist_append_left rear _)
    · exact (order_unique (behindLast_nodup nodup) ordered (turned.trans rear_sublist)).elim
  · exact (List.singleton_sublist.mpr at_rear).append (List.singleton_sublist.mpr later)

end Scan

end Pyrrha.Lib

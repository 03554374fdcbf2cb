import Pyrrha.Buffer.FlowTable

/-!
`SwitchMmu::GetUsableQ` with the flow table of a port and the map `m_paused` of its device, into
which the test of an entry can write.
-/

namespace Pyrrha
open Lib

namespace Buffer

/-- The settings `GetUsableQ` reads. `stickyTime` is `Seconds(sticky_th * 2 * m_delay_map[in_dev])`
of a port. -/
structure UsableConfig where
  queueNum : ℕ
  assignPausedQ : Bool
  assignStickyQ : Bool
  stickyTime : ℕ → ℕ

structure FlowEntry where
  size : ℕ
  qAssign : ℕ
  inDev : ℕ
  time : ℕ

/-- A `std::map<uint32_t, bool>`. -/
abbrev PauseMap := ℕ → Option Bool

/-- `operator[]`, which enters a key that is not there. -/
def PauseMap.at (m : PauseMap) (q : ℕ) : Bool × PauseMap :=
  match m q with
  | some paused => (paused, m)
  | none => (false, Function.update m q (some false))

namespace FlowEntry

variable (c : UsableConfig) (now : ℕ)

/-- The last operand of the test in `GetUsableQ`. -/
def sticky (e : FlowEntry) : Bool := decide (now ≤ e.time + c.stickyTime e.inDev) &&
    !c.assignStickyQ

/-- The test of an entry; `&&` binds more tightly than the `||` before
`egress_paused[it->second.q_assign]`. -/
def inUse (e : FlowEntry) (m : PauseMap) : Bool × PauseMap :=
  if 0 < e.size then (true, m)
  else if !c.assignPausedQ && (m e.qAssign).isSome then (true, m)
  else
    let read := m.at e.qAssign
    (read.1 || e.sticky c now, read.2)

end FlowEntry

/-- A round of the loop over the flow table; the set `usedQ` is a list. -/
def useRound (c : UsableConfig) (now : ℕ) (s : List ℕ × PauseMap) (e : FlowEntry) :
    List ℕ × PauseMap :=
  let test := e.inUse c now s.2
  (if test.1 then s.1 ++ [e.qAssign] else s.1, test.2)

def firstFree (queueNum : ℕ) (usedQ : List ℕ) : ℕ :=
  ((List.range queueNum).tail.find? fun i => decide (i ∉ usedQ)).getD (max 1 queueNum)

/-- `SwitchMmu::GetUsableQ`: the queue, and the pause map after the call. -/
def usableQ (c : UsableConfig) (now : ℕ) (table : List FlowEntry) (paused : PauseMap) :
    ℕ × PauseMap :=
  let scan := table.foldl (useRound c now) ([], paused)
  (firstFree c.queueNum scan.1, scan.2)

/-- With the queues of a switch this is the search in the model of `MatchQ`, which leaves open what
is in `usedQ`. -/
theorem usableQ_getUsableQ (c : UsableConfig) (switch : c.queueNum = queueNum) (now : ℕ)
    (table : List FlowEntry) (paused : PauseMap) : (usableQ c now table paused).1 =
      getUsableQ fun q => decide (q ∈ (table.foldl (useRound c now) ([], paused)).1) := by
  unfold usableQ firstFree getUsableQ
  simp only [switch, decide_not]
  rfl

/-! ### The rule -/

variable {c : UsableConfig} {now : ℕ} {table : List FlowEntry} {m : PauseMap} {q : ℕ}

/-- The three reasons not to use the queue of a flow. -/
def FlowEntry.Excluded (c : UsableConfig) (now : ℕ) (m : PauseMap) (e : FlowEntry) : Prop :=
  0 < e.size ∨ (c.assignPausedQ = false ∧ m e.qAssign = some true) ∨
    (c.assignStickyQ = false ∧ now ≤ e.time + c.stickyTime e.inDev)

/-- A queue that no flow excludes. -/
def Usable (c : UsableConfig) (now : ℕ) (table : List FlowEntry) (m : PauseMap) (i : ℕ) : Prop :=
  1 ≤ i ∧ i < c.queueNum ∧ ∀ e ∈ table, e.qAssign = i → ¬e.Excluded c now m

/-- The smallest number with a property, or the bound. -/
def IsFirst (P : ℕ → Prop) (bound r : ℕ) : Prop := (P r ∧ ∀ j < r, ¬P j) ∨ (r = bound ∧ ∀ i, ¬P i)

/-- `GetUsableQ` follows the rule and leaves the pause map as it is. -/
def FollowsRule (c : UsableConfig) (now : ℕ) (table : List FlowEntry) (m : PauseMap) : Prop :=
  IsFirst (Usable c now table m) c.queueNum (usableQ c now table m).1 ∧
    (usableQ c now table m).2 = m

/-- What the rule does not mind and the test does: any flow of a queue that the map knows, or with
`assign_paused_q` a paused queue. -/
def FlowEntry.Shadowed (c : UsableConfig) (m : PauseMap) (e : FlowEntry) : Prop :=
  c.assignPausedQ = false ∨ m e.qAssign = some true

/-- There are queues, the pause map knows the queue of every flow without packets, and the queue of
the rule is assigned to no flow, or with `assign_paused_q` to none while it is paused. -/
structure Unshadowed (c : UsableConfig) (now : ℕ) (table : List FlowEntry) (m : PauseMap) :
    Prop where
  queues : 0 < c.queueNum
  known : ∀ e ∈ table, e.size = 0 → m e.qAssign ≠ none
  first : ∀ q, Usable c now table m q → (∀ j < q, ¬Usable c now table m j) →
    ∀ e ∈ table, e.qAssign = q → ¬e.Shadowed c m

/-! ### The pause map -/

theorem inUse_kept (e : FlowEntry) {b : Bool} (known : m q = some b) :
    (e.inUse c now m).2 q = some b := by
  unfold FlowEntry.inUse PauseMap.at
  split
  · exact known
  · split
    · exact known
    · dsimp only
      split
      · exact known
      · rename_i unknown
        have other : q ≠ e.qAssign := fun same => by
          rw [same, unknown] at known
          cases known
        exact (Function.update_of_ne other _ _).trans known

theorem inUse_enters (c : UsableConfig) (now : ℕ) (m : PauseMap) (e : FlowEntry)
    (idle : e.size = 0) : (e.inUse c now m).2 e.qAssign ≠ none := by
  cases known : m e.qAssign with
  | some b =>
    rw [inUse_kept e known]
    exact Option.some_ne_none b
  | none =>
    have unknown : ¬(!c.assignPausedQ && (m e.qAssign).isSome) = true := by simp [known]
    rw [FlowEntry.inUse, if_neg (by omega), if_neg unknown, PauseMap.at, known]
    simp

theorem scan_kept {s : List ℕ × PauseMap} {b : Bool} (known : s.2 q = some b) :
    (table.foldl (useRound c now) s).2 q = some b := by
  induction table generalizing s with
  | nil => exact known
  | cons e rest ih => exact ih (inUse_kept e known)

theorem scan_enters (c : UsableConfig) (now : ℕ) (s : List ℕ × PauseMap) {e : FlowEntry}
    (member : e ∈ table) (idle : e.size = 0) :
    (table.foldl (useRound c now) s).2 e.qAssign ≠ none := by
  induction table generalizing s with
  | nil => cases member
  | cons first rest ih =>
    rcases List.mem_cons.mp member with rfl | later
    · obtain ⟨b, entered⟩ := Option.ne_none_iff_exists'.mp (inUse_enters c now s.2 e idle)
      rw [List.foldl_cons, scan_kept entered]
      exact Option.some_ne_none b
    · exact ih _ later

/-! ### The set of used queues -/

/-- The test of an entry whose queue the map knows. -/
def FlowEntry.Tested (c : UsableConfig) (now : ℕ) (m : PauseMap) (e : FlowEntry) : Prop :=
  e.Excluded c now m ∨ e.Shadowed c m

theorem inUse_known (c : UsableConfig) (now : ℕ) {e : FlowEntry}
    (known : e.size = 0 → m e.qAssign ≠ none) :
    (e.inUse c now m).2 = m ∧ ((e.inUse c now m).1 = true ↔ e.Tested c now m) := by
  unfold FlowEntry.inUse FlowEntry.Tested FlowEntry.Excluded FlowEntry.Shadowed
  by_cases stored : 0 < e.size
  · simp [stored]
  · obtain ⟨b, here⟩ := Option.ne_none_iff_exists'.mp (known (by omega))
    rw [if_neg stored, here]
    cases paused : c.assignPausedQ with
    | false => simp
    | true => simp [stored, PauseMap.at, here, FlowEntry.sticky, and_comm, or_comm]

theorem scan_known (c : UsableConfig) (now : ℕ) (s : List ℕ × PauseMap)
    (known : ∀ e ∈ table, e.size = 0 → s.2 e.qAssign ≠ none) :
    (table.foldl (useRound c now) s).2 = s.2 ∧ ∀ q, q ∈ (table.foldl (useRound c now) s).1 ↔
      q ∈ s.1 ∨ ∃ e ∈ table, e.qAssign = q ∧ e.Tested c now s.2 := by
  induction table generalizing s with
  | nil => simp
  | cons e rest ih =>
    obtain ⟨same, tested⟩ := inUse_known c now (known e List.mem_cons_self)
    have after : (useRound c now s e).2 = s.2 := same
    obtain ⟨sameRest, members⟩ := ih (useRound c now s e) fun x later => by
      rw [after]
      exact known x (List.mem_cons_of_mem e later)
    rw [after] at sameRest members
    refine ⟨sameRest, fun q => ?_⟩
    rw [List.foldl_cons, members q]
    have here : q ∈ (useRound c now s e).1 ↔ q ∈ s.1 ∨ (e.qAssign = q ∧ e.Tested c now s.2) := by
      unfold useRound
      dsimp only
      rw [← tested]
      split
      · rename_i used
        simp [used, eq_comm]
      · rename_i unused
        simp [unused]
    rw [here, List.exists_mem_cons_iff, or_assoc]

/-! ### The search -/

theorem firstFree_isFirst (used : List ℕ) {bound : ℕ} (queues : 0 < bound) :
    IsFirst (fun i => 1 ≤ i ∧ i < bound ∧ i ∉ used) bound (firstFree bound used) := by
  have from_one : (List.range bound).tail = List.range' 1 (bound - 1) := by
    rw [List.range_eq_range', List.tail_range']
  unfold firstFree
  rw [from_one]
  cases found : (List.range' 1 (bound - 1)).find? fun i => decide (i ∉ used) with
  | some i =>
    obtain ⟨free, inside, earlier⟩ := List.find?_range'_eq_some.mp found
    rw [List.mem_range'_1] at inside
    refine .inl ⟨⟨inside.1, by simp; omega, of_decide_eq_true free⟩, fun j before usable => ?_⟩
    have taken := earlier j usable.1 before
    simp [usable.2.2] at taken
  | none =>
    have taken := List.find?_eq_none.mp found
    refine .inr ⟨by simp; omega, fun i usable => ?_⟩
    exact taken i (List.mem_range'_1.mpr ⟨usable.1, by omega⟩) (decide_eq_true usable.2.2)

theorem isFirst_unique {P : ℕ → Prop} {bound r r' : ℕ} (first : IsFirst P bound r)
    (first' : IsFirst P bound r') : r = r' := by
  rcases first with ⟨here, least⟩ | ⟨rfl, none⟩
  · rcases first' with ⟨here', least'⟩ | ⟨rfl, none'⟩
    · rcases Nat.lt_trichotomy r r' with lt | same | lt
      · exact absurd here (least' r lt)
      · exact same
      · exact absurd here' (least r' lt)
    · exact absurd here (none' r)
  · rcases first' with ⟨here', -⟩ | ⟨rfl, -⟩
    · exact absurd here' (none r')
    · rfl

theorem exists_first {P : ℕ → Prop} {j : ℕ} (here : P j) : ∃ i ≤ j, P i ∧ ∀ k < i, ¬P k := by
  classical
  have some : ∃ i, P i := ⟨j, here⟩
  exact ⟨Nat.find some, Nat.find_min' some here, Nat.find_spec some,
    fun k before => Nat.find_min some before⟩

theorem usableQ_known (now : ℕ) (queues : 0 < c.queueNum)
    (known : ∀ e ∈ table, e.size = 0 → m e.qAssign ≠ none) :
    IsFirst (fun i => Usable c now table m i ∧ ∀ e ∈ table, e.qAssign = i →
      ¬e.Shadowed c m) c.queueNum (usableQ c now table m).1 ∧ (usableQ c now table m).2 = m := by
  obtain ⟨same, members⟩ := scan_known c now ([], m) known
  refine ⟨?_, same⟩
  have first := firstFree_isFirst (table.foldl (useRound c now) ([], m)).1 queues
  have rule : (fun i => 1 ≤ i ∧ i < c.queueNum ∧ i ∉ (table.foldl (useRound c now) ([], m)).1) =
      fun i => Usable c now table m i ∧ ∀ e ∈ table, e.qAssign = i → ¬e.Shadowed c m := by
    funext i
    simp only [members, Usable, FlowEntry.Tested, List.not_mem_nil, false_or, not_exists, not_and,
      not_or, eq_iff_iff]
    grind
  rw [rule] at first
  exact first

theorem followsRule_iff : FollowsRule c now table m ↔ Unshadowed c now table m := by
  constructor
  · rintro ⟨first, same⟩
    have known : ∀ e ∈ table, e.size = 0 → m e.qAssign ≠ none := by
      intro e member idle
      have entered := scan_enters c now ([], m) member idle
      rw [show (table.foldl (useRound c now) ([], m)).2 = m from same] at entered
      exact entered
    have queues : 0 < c.queueNum := by
      by_contra no_queue
      have none : c.queueNum = 0 := by omega
      rcases first with ⟨⟨-, below, -⟩, -⟩ | ⟨bound, -⟩
      · omega
      · have one : (usableQ c now table m).1 = 1 := by
          rw [usableQ, none]
          rfl
        omega
    refine ⟨queues, known, fun q usable least => ?_⟩
    have tested := (usableQ_known now queues known).1
    have same_q := isFirst_unique first (.inl ⟨usable, least⟩)
    rw [same_q] at tested
    rcases tested with ⟨here, -⟩ | ⟨bound, -⟩
    · exact here.2
    · exact absurd usable.2.1 (by omega)
  · intro U
    obtain ⟨first, same⟩ := usableQ_known now U.queues U.known
    refine ⟨?_, same⟩
    have smaller : ∀ j, Usable c now table m j → ∃ i ≤ j, Usable c now table m i ∧
        ∀ e ∈ table, e.qAssign = i → ¬e.Shadowed c m := by
      intro j usable
      obtain ⟨i, below, here, least⟩ := exists_first usable
      exact ⟨i, below, here, U.first i here least⟩
    rcases first with ⟨here, least⟩ | ⟨bound, none⟩
    · refine .inl ⟨here.1, fun j before usable => ?_⟩
      obtain ⟨i, below, free⟩ := smaller j usable
      exact least i (by omega) free
    · refine .inr ⟨bound, fun j usable => ?_⟩
      obtain ⟨i, -, free⟩ := smaller j usable
      exact none i free

/-- Without `assign_paused_q`, an idle flow of queue 1 that is known not to be paused: the rule
gives queue 1. -/
theorem idle_not_followed : ¬FollowsRule ⟨8, false, true, fun _ => 0⟩ 5 [⟨0, 1, 0, 0⟩]
    (Function.update (fun _ => none) 1 (some false)) := by
  rintro ⟨first, -⟩
  have free : Usable ⟨8, false, true, fun _ => 0⟩ 5 [⟨0, 1, 0, 0⟩]
      (Function.update (fun _ => none) 1 (some false)) 1 := by
    refine ⟨by decide, by decide, fun e member _ => ?_⟩
    rw [List.mem_singleton] at member
    subst member
    simp [FlowEntry.Excluded]
  rcases first with ⟨-, least⟩ | ⟨-, none⟩
  · exact least 1 (by decide) free
  · exact none 1 free

end Buffer

end Pyrrha

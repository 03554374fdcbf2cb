import Mathlib.Data.List.Induction
import Mathlib.Data.List.Nodup
import Mathlib.Data.List.Perm.Subperm
import Mathlib.Logic.Function.Basic

/-!
Breadth-first search with labels and predecessors. Only some nodes are expanded besides the root;
the others are labelled, and end the paths they are on.
-/

namespace Pyrrha.Lib

variable {α : Type*}

/-- The state of a search: the distance of every node found, its predecessors, and the nodes to
expand. -/
structure Search (α : Type*) where
  label : α → Option ℕ
  preds : α → List α
  todo : List α

/-- A path of `n` steps from the root, all of whose inner nodes are expanded. -/
inductive Trail (adj : α → List α) (expand : α → Bool) (root : α) : ℕ → α → Prop where
  | root : Trail adj expand root 0 root
  | first {x : α} : x ∈ adj root → Trail adj expand root 1 x
  | step {n : ℕ} {w x : α} : Trail adj expand root n w → expand w = true → x ∈ adj w →
      Trail adj expand root (n + 1) x

namespace Search

variable [DecidableEq α]

def start (root : α) : Search α where
  label x := if x = root then some 0 else none
  preds _ := []
  todo := [root]

/-- A neighbour of `now`, which has distance `d`, is found, and `now` becomes its predecessor if it
is one step further. -/
def visit (expand : α → Bool) (now : α) (d : ℕ) (s : Search α) (next : α) : Search α :=
  let s := if s.label next = none then
    { s with
      label := Function.update s.label next (some (d + 1))
      todo := if expand next then s.todo ++ [next] else s.todo }
    else s
  if s.label next = some (d +
    1) then { s with preds := Function.update s.preds next (s.preds next ++ [now]) } else s

/-- The first node to expand is expanded. -/
def expandNode (adj : α → List α) (expand : α → Bool) (now : α) (s : Search α) : Search α :=
  (adj now).foldl (visit expand now ((s.label now).getD 0)) s

def run (adj : α → List α) (expand : α → Bool) : ℕ → Search α → Search α
  | 0, s => s
  | fuel + 1, s =>
    match s.todo with
    | [] => s
    | now :: rest => run adj expand fuel (expandNode adj expand now { s with todo := rest })

/-! ### What one expansion does -/

variable {adj : α → List α} {expand : α → Bool} {root now : α} {s : Search α}

/-- The state after `now`, at distance `d`, has been compared with some of its neighbours. -/
structure Visited (expand : α → Bool) (now : α) (d : ℕ) (s t : Search α) (l : List α) : Prop where
  label : ∀ x, t.label x = if s.label x = none ∧ x ∈ l then some (d + 1) else s.label x
  preds : ∀ x, t.preds x = if x ∈ l ∧ t.label x = some (d + 1) then s.preds x ++ [now]
    else s.preds x
  todo : t.todo = s.todo ++ l.filter fun x => decide (s.label x = none) && expand x

theorem visit_label {d : ℕ} {next : α} (x : α) : (visit expand now d s next).label x =
    if s.label next = none ∧ x = next then some (d + 1) else s.label x := by
  unfold visit
  by_cases new : s.label next = none
  · by_cases same : x = next <;> simp [new, same, Function.update]
  · by_cases far : s.label next = some (d + 1) <;> simp [new, far]

theorem visit_todo {d : ℕ} {next : α} : (visit expand now d s next).todo =
    if s.label next = none ∧ expand next = true then s.todo ++ [next] else s.todo := by
  unfold visit
  by_cases new : s.label next = none
  · by_cases fresh : expand next = true <;> simp [new, fresh]
  · by_cases far : s.label next = some (d + 1) <;> simp [new, far]

theorem visit_preds {d : ℕ} {next : α} (x : α) : (visit expand now d s next).preds x =
    if x = next ∧ (s.label next = none ∨ s.label next = some (d + 1)) then s.preds x ++ [now]
      else s.preds x := by
  unfold visit
  by_cases new : s.label next = none
  · by_cases same : x = next <;> simp [new, same, Function.update]
  · by_cases far : s.label next = some (d + 1)
    · by_cases same : x = next <;> simp [far, same, Function.update]
    · simp [new, far]

theorem visited_foldl {d : ℕ} {l : List α} (nodup : l.Nodup) :
    Visited expand now d s (l.foldl (visit expand now d) s) l := by
  induction l using List.reverseRecOn with
  | nil => exact ⟨fun x => by simp, fun x => by simp, by simp⟩
  | append_singleton l next ih =>
    have absent : next ∉ l := fun mem => by
      simpa using (List.nodup_append.mp nodup).2.2 next mem next (by simp)
    have before := ih (List.nodup_append.mp nodup).1
    have labelled : (l.foldl (visit expand now d) s).label next = s.label next := by
      rw [before.label, if_neg fun both => absent both.2]
    have label : ∀ x, ((l ++ [next]).foldl (visit expand now d) s).label x =
        if s.label x = none ∧ x ∈ l ++ [next] then some (d + 1) else s.label x := by
      intro x
      rw [List.foldl_append, List.foldl_cons, List.foldl_nil, visit_label, labelled, before.label]
      by_cases same : x = next
      · subst same
        by_cases new : s.label x = none <;> simp [new, absent]
      · simp [same]
    refine ⟨label, fun x => ?_, ?_⟩
    · rw [label, List.foldl_append, List.foldl_cons, List.foldl_nil, visit_preds, labelled,
        before.preds, before.label]
      by_cases same : x = next
      · subst same
        by_cases new : s.label x = none <;> simp [new, absent]
      · simp [same]
    · rw [List.foldl_append, List.foldl_cons, List.foldl_nil, visit_todo, labelled, before.todo]
      by_cases new : s.label next = none ∧ expand next = true
      · simp [new]
      · have : (decide (s.label next = none) && expand next) = false := by simpa using new
        simp [new, this]

/-! ### What holds while the search runs

The nodes expanded so far come in the order of their distances, and those waiting are at most one
step further than the one expanded next. -/

/-- The labels and predecessors are those of the nodes expanded so far, `done`. -/
structure Explored (adj : α → List α) (expand : α → Bool) (root : α) (done : List α)
    (s : Search α) : Prop where
  rooted : s.label root = some 0
  nodup : (done ++ s.todo).Nodup
  queued : ∀ x, x ∈ done ++ s.todo ↔ (∃ n, s.label x = some n) ∧ (x = root ∨ expand x = true)
  found : ∀ x n, s.label x = some n → x = root ∧ n = 0 ∨ ∃ w ∈ done, x ∈ adj w ∧
    ∃ m, s.label w = some m ∧ n = m + 1
  closed : ∀ w ∈ done, ∀ m, s.label w = some m → ∀ x ∈ adj w, ∃ n, s.label x = some n ∧ n ≤ m + 1
  sorted : s.todo.Pairwise fun x y => ∀ m n, s.label x = some m → s.label y = some n → m ≤ n
  near : ∀ w ∈ s.todo, ∀ m, s.label w = some m → ∀ x n, s.label x = some n → n ≤ m + 1
  preds : ∀ x w, w ∈ s.preds x ↔ w ∈ done ∧ x ∈ adj w ∧ ∃ n, s.label w = some n ∧
    s.label x = some (n + 1)
  preds_nodup : ∀ x, (s.preds x).Nodup

theorem explored_start : Explored adj expand root [] (start root) := by
  have labelled : ∀ x n, (start root).label x = some n ↔ x = root ∧ n = 0 := by
    intro x n
    by_cases same : x = root <;> simp [start, same, @eq_comm ℕ 0]
  constructor
  · simp [start]
  · simp [start]
  · intro x
    simp only [labelled]
    simp [start]
    intro same
    exact .inl same
  · intro x n label
    exact .inl ((labelled x n).mp label)
  · simp
  · simp [start]
  · intro w _ m _ x n label
    have := ((labelled x n).mp label).2
    omega
  · simp [start]
  · simp [start]

/-! ### One node expanded

`now`, at distance `d`, is the first that waits in `s`; `t` is the state after it has been
expanded. -/

section expansion

variable {d : ℕ} {done rest : List α} {t : Search α}

/-- The labels that are there stay. -/
theorem Visited.kept {l : List α} (v : Visited expand now d s t l) {x : α} {n : ℕ}
    (label : s.label x = some n) : t.label x = some n := by
  rw [v.label, if_neg (by simp [label]), label]

theorem Visited.label_cases {l : List α} (v : Visited expand now d s t l) {x : α} {n : ℕ}
    (label : t.label x = some n) : s.label x = some n ∨ s.label x = none ∧ x ∈ l ∧ n = d + 1 := by
  rw [v.label] at label
  split at label
  · rename_i both
    exact .inr ⟨both.1, both.2, by simpa using label.symm⟩
  · exact .inl label

/-- `now` is the first of the nodes to expand, and is expanded. -/
structure Expanding (adj : α → List α) (expand : α → Bool) (root now : α) (d : ℕ)
    (done rest : List α) (s t : Search α) : Prop where
  explored : Explored adj expand root done s
  first : s.todo = now :: rest
  label_now : s.label now = some d
  nodup : (adj now).Nodup
  visited : Visited expand now d { s with todo := rest } t (adj now)

omit [DecidableEq α] in
theorem mem_fresh (x : α) : (x ∈ (adj now).filter fun x => decide (s.label x = none) && expand x) ↔
    x ∈ adj now ∧ s.label x = none ∧ expand x = true := by
  simp

namespace Expanding

variable (e : Expanding adj expand root now d done rest s t)
include e

theorem todo_eq :
    t.todo = rest ++ (adj now).filter fun x => decide (s.label x = none) && expand x :=
      e.visited.todo

theorem kept {x : α} {n : ℕ} (label : s.label x = some n) :
    t.label x = some n :=
  e.visited.kept label

theorem label_cases {x : α} {n : ℕ} (label : t.label x = some n) :
    s.label x = some n ∨ s.label x = none ∧ x ∈ adj now ∧ n = d + 1 :=
  e.visited.label_cases label

theorem label_new {x : α} (none : s.label x = none)
    (next : x ∈ adj now) : t.label x = some (d + 1) := by
  rw [e.visited.label, if_pos ⟨none, next⟩]

theorem label_le {x : α} {n : ℕ} (label : t.label x = some n) :
    n ≤ d + 1 := by
  rcases e.label_cases label with old | ⟨_, _, same⟩
  · exact e.explored.near now (by simp [e.first]) d e.label_now x n old
  · omega

theorem queued_label {w : α} (mem : w ∈ done ++ s.todo) {m : ℕ}
    (label : t.label w = some m) : s.label w = some m := by
  obtain ⟨n, there⟩ := ((e.explored.queued w).mp mem).1
  have := e.kept there
  rw [label] at this
  rw [there, ← this]

theorem unseen : now ∉ done := by
  intro seen
  have apart := (List.nodup_append.mp e.explored.nodup).2.2 now seen now (by simp [e.first])
  exact apart rfl

theorem nodup_after : (done ++ [now] ++ t.todo).Nodup := by
  have old := e.explored.nodup
  rw [e.first] at old
  rw [e.todo_eq, ← List.append_assoc, List.append_assoc done]
  refine List.nodup_append.mpr ⟨by simpa using old, e.nodup.filter _, ?_⟩
  rintro w seen x fresh rfl
  obtain ⟨m, there⟩ := ((e.explored.queued w).mp (by simpa [e.first] using seen)).1
  rw [((mem_fresh w).mp fresh).2.1] at there
  cases there

theorem queued_after (x : α) :
    x ∈ done ++ [now] ++ t.todo ↔ (∃ n, t.label x = some n) ∧ (x = root ∨ expand x = true) := by
  have split : x ∈ done ++ [now] ++ t.todo ↔
      x ∈ done ++ s.todo ∨ x ∈ adj now ∧ s.label x = none ∧ expand x = true := by
    rw [← mem_fresh, e.todo_eq, e.first]
    simp only [List.mem_append, List.mem_cons, List.not_mem_nil, or_false]
    tauto
  rw [split, e.explored.queued]
  constructor
  · rintro (⟨⟨n, there⟩, wide⟩ | ⟨next, none, wide⟩)
    · exact ⟨⟨n, e.kept there⟩, wide⟩
    · exact ⟨⟨d + 1, e.label_new none next⟩, .inr wide⟩
  · rintro ⟨⟨n, there⟩, wide⟩
    rcases e.label_cases there with old | ⟨none, next, _⟩
    · exact .inl ⟨⟨n, old⟩, wide⟩
    · rcases wide with rfl | wide
      · rw [e.explored.rooted] at none
        cases none
      · exact .inr ⟨next, none, wide⟩

theorem closed_after {w x : α} (seen : w ∈ done ++ [now]) {m : ℕ}
    (there : t.label w = some m) (next : x ∈ adj w) : ∃ n, t.label x = some n ∧ n ≤ m + 1 := by
  rcases List.mem_append.mp seen with seen | isNow
  · obtain ⟨n, back, le⟩ :=
      e.explored.closed w seen m (e.queued_label (by simp [seen]) there) x next
    exact ⟨n, e.kept back, le⟩
  · obtain rfl : w = now := by simpa using isNow
    have := e.kept e.label_now
    rw [there] at this
    obtain rfl : m = d := by simpa using this
    cases old : s.label x with
    | none => exact ⟨m + 1, e.label_new old next, Nat.le_refl _⟩
    | some n => exact ⟨n, e.kept old, e.explored.near w (by simp [e.first]) m e.label_now x n old⟩

theorem sorted_after :
    t.todo.Pairwise fun x y => ∀ m n, t.label x = some m → t.label y = some n → m ≤ n := by
  have old := e.explored.sorted
  rw [e.first] at old
  have waits : ∀ w ∈ rest, w ∈ done ++ s.todo := fun w waiting => by simp [e.first, waiting]
  have fresh : ∀ y ∈ (adj now).filter fun x => decide (s.label x = none) && expand x, t.label y =
      some (d + 1) :=
    fun y mem => e.label_new ((mem_fresh y).mp mem).2.1 ((mem_fresh y).mp mem).1
  rw [e.todo_eq]
  refine List.pairwise_append.mpr ⟨?_, ?_, ?_⟩
  · refine List.Pairwise.imp_of_mem ?_ (List.pairwise_cons.mp old).2
    intro x y left right le m n atX atY
    exact le m n (e.queued_label (waits x left) atX) (e.queued_label (waits y right) atY)
  · refine List.pairwise_of_forall_mem_list fun x left y right m n atX atY => ?_
    rw [fresh x left] at atX
    rw [fresh y right] at atY
    cases atX
    cases atY
    exact Nat.le_refl _
  · intro x _ y right m n atX atY
    rw [fresh y right] at atY
    cases atY
    exact e.label_le atX

theorem near_after {w x : α} (waiting : w ∈ t.todo) {m n : ℕ}
    (there : t.label w = some m) (label : t.label x = some n) : n ≤ m + 1 := by
  have d_le : d ≤ m := by
    rw [e.todo_eq] at waiting
    rcases List.mem_append.mp waiting with waiting | fresh
    · have old := e.explored.sorted
      rw [e.first] at old
      have before := e.queued_label (by simp [e.first, waiting]) there
      exact (List.pairwise_cons.mp old).1 w waiting d m e.label_now before
    · rw [e.label_new ((mem_fresh w).mp fresh).2.1 ((mem_fresh w).mp fresh).1] at there
      cases there
      omega
  have := e.label_le label
  omega

theorem preds_after (x w : α) :
    w ∈ t.preds x ↔ w ∈ done ++ [now] ∧ x ∈ adj w ∧ ∃ n, t.label w = some n ∧
    t.label x = some (n + 1) := by
  have preds := e.visited.preds x
  have nowLabel := e.kept e.label_now
  by_cases isNow : w = now
  · subst isNow
    have absent : w ∉ s.preds x := fun old => e.unseen ((e.explored.preds x w).mp old).1
    by_cases further : x ∈ adj w ∧ t.label x = some (d + 1)
    · simp [preds, further, nowLabel]
    · rw [preds, if_neg further]
      constructor
      · intro old
        exact absurd old absent
      · rintro ⟨_, next, n, there, step⟩
        rw [nowLabel] at there
        cases there
        exact absurd ⟨next, step⟩ further
  · have stays : w ∈ t.preds x ↔ w ∈ s.preds x := by
      rw [preds]
      split <;> simp [isNow]
    rw [stays, e.explored.preds]
    constructor
    · rintro ⟨seen, next, n, there, step⟩
      exact ⟨by simp [seen], next, n, e.kept there, e.kept step⟩
    · rintro ⟨seen, next, n, there, step⟩
      have seen : w ∈ done := by simpa [isNow] using seen
      have there := e.queued_label (by simp [seen]) there
      obtain ⟨n', old, _⟩ := e.explored.closed w seen n there x next
      have := e.kept old
      rw [step] at this
      exact ⟨seen, next, n, there, by rw [old, this]⟩

theorem explored_after :
    Explored adj expand root (done ++ [now]) t := by
  refine ⟨e.kept e.explored.rooted, e.nodup_after, e.queued_after, fun x n there => ?_,
    fun w seen m there x next => e.closed_after seen there next, e.sorted_after,
    fun w waiting m there x n label => e.near_after waiting there label, e.preds_after, fun x => ?_⟩
  · rcases e.label_cases there with old | ⟨_, next, same⟩
    · rcases e.explored.found x n old with root | ⟨w, seen, next, m, back, same⟩
      · exact .inl root
      · exact .inr ⟨w, by simp [seen], next, m, e.kept back, same⟩
    · exact .inr ⟨now, by simp, next, d, e.kept e.label_now, same⟩
  · rw [e.visited.preds]
    split
    · refine List.nodup_append.mpr ⟨e.explored.preds_nodup x, by simp, ?_⟩
      rintro w old y isNow rfl
      obtain rfl : w = now := by simpa using isNow
      exact e.unseen ((e.explored.preds x w).mp old).1
    · exact e.explored.preds_nodup x

end Expanding

theorem explored_expandNode (nodup : (adj now).Nodup) (first : s.todo = now :: rest)
    (h : Explored adj expand root done s) :
    Explored adj expand root (done ++ [now])
      (expandNode adj expand now { s with todo := rest }) := by
  obtain ⟨d, labelled⟩ := ((h.queued now).mp (by simp [first])).1
  have visited := @visited_foldl α _ expand now { s with todo := rest } d _ nodup
  have same : (s.label now).getD 0 = d := by simp [labelled]
  unfold expandNode
  rw [show ({ s with todo := rest } : Search α).label now = s.label now from rfl, same]
  exact Expanding.explored_after ⟨h, first, labelled, nodup, visited⟩

end expansion

/-! ### When nothing is left to expand -/

variable {done rest nodes : List α}

omit [DecidableEq α] in
theorem Explored.inside (h : Explored adj expand root done s) (first : root ∈ nodes)
    (closed : ∀ w, ∀ x ∈ adj w, x ∈ nodes) : ∀ x ∈ done ++ s.todo, x ∈ nodes := by
  intro x mem
  obtain ⟨n, label⟩ := ((h.queued x).mp mem).1
  rcases h.found x n label with ⟨rfl, _⟩ | ⟨w, _, next, _⟩
  · exact first
  · exact closed w x next

theorem explored_run (nodup : ∀ w, (adj w).Nodup) (first : root ∈ nodes)
    (closed : ∀ w, ∀ x ∈ adj w, x ∈ nodes)
    {fuel : ℕ} (enough : nodes.length ≤ fuel + done.length) (h : Explored adj expand root done s) :
    ∃ done, Explored adj expand root done (run adj expand fuel s) ∧
    (run adj expand fuel s).todo = [] := by
  induction fuel generalizing done s with
  | zero =>
    have le : (done ++ s.todo).length ≤ nodes.length :=
      (h.nodup.subperm (h.inside first closed)).length_le
    rw [List.length_append] at le
    exact ⟨done, h, List.length_eq_zero_iff.mp (show s.todo.length = 0 by omega)⟩
  | succ fuel ih =>
    unfold run
    cases next : s.todo with
    | nil => exact ⟨done, h, next⟩
    | cons now rest =>
      have longer : (done ++ [now]).length = done.length + 1 := by simp
      exact ih (by omega) (explored_expandNode (nodup now) next h)

omit [DecidableEq α] in
theorem Explored.mem_done (h : Explored adj expand root done s) (done_all : s.todo = []) (x : α) :
    x ∈ done ↔ (∃ n, s.label x = some n) ∧ (x = root ∨ expand x = true) := by
  simpa [done_all] using h.queued x

omit [DecidableEq α] in
theorem Explored.trail (h : Explored adj expand root done s) (done_all : s.todo = [])
    {x : α} {n : ℕ} (label : s.label x = some n) : Trail adj expand root n x := by
  induction n generalizing x with
  | zero =>
    rcases h.found x 0 label with ⟨rfl, _⟩ | ⟨_, _, _, m, _, same⟩
    · exact .root
    · omega
  | succ n ih =>
    rcases h.found x (n + 1) label with ⟨_, same⟩ | ⟨w, seen, next, m, back, same⟩
    · omega
    · obtain rfl : n = m := by omega
      rcases ((h.mem_done done_all w).mp seen).2 with rfl | wide
      · have : n = 0 := by simpa [h.rooted, eq_comm] using back
        subst this
        exact .first next
      · exact .step (ih back) wide next

omit [DecidableEq α] in
theorem Explored.label_le (h : Explored adj expand root done s) (done_all : s.todo = [])
    {x : α} {n : ℕ} (path : Trail adj expand root n x) : ∃ m, s.label x = some m ∧ m ≤ n := by
  have rooted : root ∈ done := (h.mem_done done_all root).mpr ⟨⟨0, h.rooted⟩, .inl rfl⟩
  induction path with
  | root => exact ⟨0, h.rooted, Nat.le_refl _⟩
  | first next => exact h.closed root rooted 0 h.rooted _ next
  | step _ wide next ih =>
    obtain ⟨m, label, le⟩ := ih
    have seen := (h.mem_done done_all _).mpr ⟨⟨m, label⟩, .inr wide⟩
    obtain ⟨n, further, le'⟩ := h.closed _ seen m label _ next
    exact ⟨n, further, by omega⟩

/-- The nodes found, and only these, have paths, and the label is the length of a shortest one. The
predecessors are the expanded nodes one step nearer. -/
structure Shortest (adj : α → List α) (expand : α → Bool) (root : α) (s : Search α) : Prop where
  label : ∀ x n, s.label x = some n ↔
    Trail adj expand root n x ∧ ∀ m, Trail adj expand root m x → n ≤ m
  preds : ∀ x w, w ∈ s.preds x ↔
    (w = root ∨ expand w = true) ∧ x ∈ adj w ∧ ∃ n, s.label w = some n ∧ s.label x = some (n + 1)
  preds_nodup : ∀ x, (s.preds x).Nodup

theorem shortest_run (nodup : ∀ w, (adj w).Nodup) (first : root ∈ nodes)
    (closed : ∀ w, ∀ x ∈ adj w, x ∈ nodes) :
    Shortest adj expand root (run adj expand nodes.length (start root)) ∧
      (run adj expand nodes.length (start root)).todo = [] := by
  obtain ⟨done, h, finished⟩ := explored_run nodup first closed (Nat.le_refl _) explored_start
  refine ⟨⟨fun x n => ⟨fun label => ⟨h.trail finished label, fun m path => ?_⟩,
    fun ⟨path, least⟩ => ?_⟩, fun x w => ?_, h.preds_nodup⟩, finished⟩
  · obtain ⟨k, there, le⟩ := h.label_le finished path
    rw [label] at there
    cases there
    exact le
  · obtain ⟨k, there, le⟩ := h.label_le finished path
    have := least k (h.trail finished there)
    obtain rfl : n = k := by omega
    exact there
  · rw [h.preds, h.mem_done finished]
    constructor
    · rintro ⟨⟨_, wide⟩, next, step⟩
      exact ⟨wide, next, step⟩
    · rintro ⟨wide, next, n, there, step⟩
      exact ⟨⟨⟨n, there⟩, wide⟩, next, n, there, step⟩

end Search

end Pyrrha.Lib

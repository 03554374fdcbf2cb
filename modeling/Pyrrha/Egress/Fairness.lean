import Mathlib.Data.List.Count
import Pyrrha.Egress.Sizes

/-!
How `DequeueRR` serves the queues of one priority level. `DoDequeueRR` remembers the offset of its
scan after the loop has incremented `prio`, so the offset of a level stays the same until a level
before it is served.
-/

namespace Pyrrha
open Lib

namespace Egress

/-- The write to `m_rrlasts` as the program goes on from it: past the end of the vector it hits
memory that no queue reads. -/
def BEgressQueue.spillRrlast (q : BEgressQueue) (f : Found) : Except Fault BEgressQueue :=
  .ok ((q.setRrlast f).toOption.getD { q with qlast := f.qIndex })

/-- `DequeueRR` of a program that goes on from writes past the end of `m_rrlasts`. -/
def BEgressQueue.dequeueRR (q : BEgressQueue) (pfcGran : PauseGran) (env : Env) :
    Except Fault (BEgressQueue × Option Packet) := q.doDequeueRRWith spillRrlast pfcGran env

/-- A call of the queues of a port. -/
inductive QueueCall where
  | enqueue (p : Packet) (qIndex : ℕ)
  | dequeueRR (env : Env)

/-- A call of `DequeueRR`: the queues before it, and `GetLastQueue` after it when it has returned a
packet. -/
structure Turn where
  before : BEgressQueue
  env : Env
  queue : Option ℕ

/-- The calls of `DequeueRR` in a run. -/
def turns (pfcGran : PauseGran) : BEgressQueue → List QueueCall → Except Fault (List Turn)
  | _, [] => .ok []
  | q, .enqueue p qIndex :: rest => do
    let q ← q.enqueue p qIndex
    turns pfcGran q rest
  | q, .dequeueRR env :: rest => do
    let (after, p) ← q.dequeueRR pfcGran env
    let later ← turns pfcGran after rest
    .ok (⟨q, env, p.map fun _ => after.qlast⟩ :: later)

def served (ts : List Turn) (i : ℕ) : ℕ := ts.countP fun t => decide (t.queue = some i)

/-- Two queues have sent equally often, up to one packet. -/
def Fair (ts : List Turn) (a b : ℕ) : Prop := served ts a ≤ served ts b + 1 ∧
    served ts b ≤ served ts a + 1

/-- Two queues of a level that can send in every turn of an interval, in which no queue of a level
before theirs is served. -/
structure Contest (pfcGran : PauseGran) (q : BEgressQueue) (level a b : ℕ) (ts : List Turn) :
    Prop where
  other : a ≠ b
  members : ∃ cls, (q.priorities 0)[level]? = some cls ∧ a ∈ cls ∧ b ∈ cls
  stays : ∀ t ∈ ts, t.before.sendable pfcGran t.env a = .ok true ∧
    t.before.sendable pfcGran t.env b = .ok true
  noneAbove : ∀ t ∈ ts, ∀ i, t.queue = some i → ∀ cls ∈ (q.priorities 0).take level, i ∉ cls

/-- The queues ahead of two others in a ring. -/
def ahead (a b : ℕ) (ring : List ℕ) : List ℕ := ring.takeWhile fun i =>
    decide (i ≠ a) && decide (i ≠ b)

def BEgressQueue.ring (q : BEgressQueue) (level : ℕ) : List ℕ :=
  ((q.priorities 0).getD level []).rotate ((q.rrlasts 0).getD level 0)

/-- The scan comes to the first of two queues: there are packets, and no queue of the level ahead of
both can send. -/
def Turn.reaches (pfcGran : PauseGran) (level a b : ℕ) (t : Turn) : Bool :=
  decide (t.before.bytesInQueueTotal ≠ 0) &&
    (ahead a b (t.before.ring level)).all fun i =>
      decide ((t.before.sendable pfcGran t.env i).toOption = some false)

variable {pfcGran : PauseGran} {env : Env} {q t : BEgressQueue} {f : Found} {i level a b x y : ℕ}
  {p : Packet} {r : Option Packet}

/-! ### The order of a ring -/

theorem mem_ahead {ring : List ℕ} (member : i ∈ ahead a b ring) : i ≠ a ∧ i ≠ b := by
  have test := List.all_eq_true.mp List.all_takeWhile i member
  simpa using test

theorem ahead_split {ring : List ℕ} (member : a ∈ ring) :
    ∃ x rest, (x = a ∨ x = b) ∧ ring = ahead a b ring ++ x :: rest := by
  have cut :=
    List.takeWhile_append_dropWhile (p := fun i => decide (i ≠ a) && decide (i ≠ b)) (l := ring)
  cases behind : ring.dropWhile fun i => decide (i ≠ a) && decide (i ≠ b) with
  | nil =>
    rw [behind, List.append_nil] at cut
    have inside : a ∈ ahead a b ring := by
      rw [ahead, cut]
      exact member
    exact absurd rfl (mem_ahead inside).1
  | cons x rest =>
    have stops := List.head?_dropWhile_not (fun i => decide (i ≠ a) && decide (i ≠ b)) ring
    rw [behind] at stops
    rw [behind] at cut
    refine ⟨x, rest, ?_, cut.symm⟩
    simp only [List.head?_cons, Bool.and_eq_false_iff, decide_eq_false_iff_not, not_not] at stops
    exact stops

/-- A search with the first of two accepted elements at `x` ends there or ahead of it. -/
theorem firstFrom_ahead {test : ℕ → Except Fault Bool} {front rest : List ℕ} {k j s : ℕ}
    (found : firstFrom test k (front ++ x :: rest) = .ok (some (j, s))) (here : test x = .ok true) :
    (s = x ∧ ∀ i ∈ front, test i = .ok false) ∨ (s ∈ front ∧ ¬∀ i ∈ front, test i = .ok false) := by
  by_cases skipped : ∀ i ∈ front, test i = .ok false
  · rw [firstFrom_skip skipped, firstFrom_cons, here] at found
    cases found
    exact .inl ⟨rfl, skipped⟩
  · obtain ⟨before, after, cut, -, passed, accepted⟩ := firstFrom_eq_some.mp found
    refine .inr ⟨?_, skipped⟩
    rcases List.append_eq_append_iff.mp cut with ⟨c, rfl, -⟩ | ⟨c, rfl, later⟩
    · exact absurd (fun i member => passed i (List.mem_append_left c member)) skipped
    · cases c with
      | nil => exact absurd (by simpa using passed) skipped
      | cons s' c =>
        rw [List.cons_append] at later
        rw [(List.cons.inj later).1]
        exact List.mem_append_right before List.mem_cons_self

/-! ### What a call leaves of the memory of the scan -/

/-- The levels, the offsets of their scans and the queue served last are the same. -/
structure SameMemory (q t : BEgressQueue) : Prop where
  priorities : t.priorities = q.priorities
  rrlasts : t.rrlasts = q.rrlasts
  qlast : t.qlast = q.qlast

theorem sameMemory_refl (q : BEgressQueue) : SameMemory q q := ⟨rfl, rfl, rfl⟩

theorem sameMemory_trans {u : BEgressQueue} (first : SameMemory q t) (second : SameMemory t u) :
    SameMemory q u :=
  ⟨second.priorities.trans first.priorities, second.rrlasts.trans first.rrlasts,
    second.qlast.trans first.qlast⟩

theorem doEnqueue_memory (h : q.doEnqueue p i = .ok (some t)) : SameMemory q t := by
  unfold BEgressQueue.doEnqueue at h
  split at h
  · obtain ⟨packets, -, h⟩ := bind_ok h
    obtain ⟨packets', -, h⟩ := bind_ok h
    obtain ⟨bytes, -, h⟩ := bind_ok h
    cases h
    exact ⟨rfl, rfl, rfl⟩
  · cases h

theorem enqueue_memory (h : q.enqueue p i = .ok t) : SameMemory q t := by
  unfold BEgressQueue.enqueue at h
  cases stored : q.doEnqueue p i with
  | error e =>
    rw [stored] at h
    cases h
  | ok r =>
    rw [stored] at h
    cases r with
    | none =>
      cases h
      exact sameMemory_refl q
    | some u =>
      cases h
      exact doEnqueue_memory stored

theorem pop_memory (h : q.pop i = .ok (t, p)) : SameMemory q t := by
  unfold BEgressQueue.pop at h
  obtain ⟨packets, -, h⟩ := bind_ok h
  cases packets with
  | nil => cases h
  | cons first rest =>
    obtain ⟨bytes, -, h⟩ := bind_ok h
    cases h
    exact ⟨rfl, rfl, rfl⟩

theorem skipIdle_memory {now : ℕ} (h : BEgressQueue.skipIdle now q i = .ok t) : SameMemory q t := by
  unfold BEgressQueue.skipIdle at h
  obtain ⟨limiter, -, h⟩ := bind_ok h
  split at h
  · cases h
    exact sameMemory_refl q
  · obtain ⟨bytes, -, h⟩ := bind_ok h
    split at h
    · cases h
      exact sameMemory_refl q
    · obtain ⟨avail, -, h⟩ := bind_ok h
      split at h
      · cases h
        exact sameMemory_refl q
      · obtain ⟨nxtAvails, -, h⟩ := bind_ok h
        cases h
        exact ⟨rfl, rfl, rfl⟩

theorem limit_memory {now size qIndex : ℕ} (h : BEgressQueue.limit now size qIndex q i = .ok t) :
    SameMemory q t := by
  unfold BEgressQueue.limit at h
  split at h
  · obtain ⟨limiter, -, h⟩ := bind_ok h
    cases limiter with
    | none =>
      cases h
      exact sameMemory_refl q
    | some txTime =>
      obtain ⟨started, -, h⟩ := bind_ok h
      obtain ⟨rateLimiting, -, h⟩ := bind_ok h
      obtain ⟨nxtAvails, -, h⟩ := bind_ok h
      cases h
      exact ⟨rfl, rfl, rfl⟩
  · split at h
    · exact skipIdle_memory h
    · cases h
      exact sameMemory_refl q

theorem limiters_memory {turn : BEgressQueue → ℕ → Except Fault BEgressQueue} {l : List ℕ}
    (each : ∀ {u v : BEgressQueue} {i : ℕ}, turn u i = .ok v → SameMemory u v)
    (h : l.foldlM turn q = .ok t) : SameMemory q t :=
  foldlM_preserves (fun _ _ _ _ same call => sameMemory_trans same (each call))
    (sameMemory_refl q) h

/-- The offset of a level is the one of the scan only at the level behind the one served. -/
theorem setRrlast_memory (h : q.setRrlast f = .ok t) :
    t.priorities = q.priorities ∧ t.qlast = f.qIndex ∧ ∀ k ≠ f.prio, (t.rrlasts 0)[k]? =
      (q.rrlasts 0)[k]? := by
  unfold BEgressQueue.setRrlast at h
  split at h
  · rename_i zero
    cases h
    exact ⟨rfl, zero.symm, fun _ _ => rfl⟩
  · obtain ⟨rrlasts, written, h⟩ := bind_ok h
    cases h
    refine ⟨rfl, rfl, fun k other => ?_⟩
    have value : rrlasts = (q.rrlasts 0).modify f.prio fun _ => f.rrlast := by
      unfold modifyAt at written
      split at written
      · cases written
        rfl
      · cases written
    show (Function.update q.rrlasts 0 rrlasts 0)[k]? = _
    rw [Function.update_self, value, List.getElem?_modify]
    simp [Ne.symm other]

theorem spillRrlast_memory (h : q.spillRrlast f = .ok t) :
    t.priorities = q.priorities ∧ t.qlast = f.qIndex ∧ ∀ k ≠ f.prio, (t.rrlasts 0)[k]? =
      (q.rrlasts 0)[k]? := by
  unfold BEgressQueue.spillRrlast at h
  cases written : q.setRrlast f with
  | ok u =>
    rw [written] at h
    cases h
    exact setRrlast_memory written
  | error e =>
    rw [written] at h
    cases h
    exact ⟨rfl, rfl, fun _ _ => rfl⟩

theorem dequeueRR_of_ok {r : BEgressQueue × Option Packet} (h : q.doDequeueRR pfcGran env = .ok r) :
    q.dequeueRR pfcGran env = .ok r := by
  unfold BEgressQueue.doDequeueRR BEgressQueue.doDequeueRRWith at h
  unfold BEgressQueue.dequeueRR BEgressQueue.doDequeueRRWith
  split at h
  · rename_i empty
    rw [if_pos empty]
    exact h
  · rename_i some_bytes
    rw [if_neg some_bytes]
    obtain ⟨found, scanned, h⟩ := bind_ok h
    rw [scanned]
    cases found with
    | none => exact h
    | some f =>
      obtain ⟨⟨u, p⟩, popped, h⟩ := bind_ok h
      obtain ⟨v, written, h⟩ := bind_ok h
      have spilled : u.spillRrlast f = .ok v := by
        unfold BEgressQueue.spillRrlast
        rw [written]
        rfl
      simp only [bind, Except.bind, popped, spilled]
      exact h

/-! ### Where the scan stops -/

theorem scanClass_skipped {prio : ℕ} {cls : List ℕ}
    (h : q.scanClass pfcGran env prio cls = .ok none) :
    ∀ i ∈ cls, q.sendable pfcGran env i = .ok false := by
  unfold BEgressQueue.scanClass at h
  split at h
  · rename_i empty
    simp [empty]
  · obtain ⟨rr, -, h⟩ := bind_ok h
    intro i member
    exact firstFrom_eq_none.mp h i (List.mem_rotate.mpr member)

theorem scan_skipped {prio : ℕ} {classes : List (List ℕ)}
    (h : q.scan pfcGran env prio classes = .ok none) :
    ∀ cls ∈ classes, ∀ i ∈ cls, q.sendable pfcGran env i = .ok false := by
  induction classes generalizing prio with
  | nil => nofun
  | cons cls rest ih =>
    rw [scan_cons] at h
    obtain ⟨found, scanned, h⟩ := bind_ok h
    rcases found with _ | ⟨j, i⟩
    · intro c member
      rcases List.mem_cons.mp member with rfl | later
      · exact scanClass_skipped scanned
      · exact ih h c later
    · cases h

/-- The scan passes the levels without a queue that can send and ends in the first of the others. -/
theorem scan_stops {prio : ℕ} {classes : List (List ℕ)}
    (h : q.scan pfcGran env prio classes = .ok (some f)) :
    ∃ front cls rest rr, classes = front ++ cls :: rest ∧ f.prio = prio + front.length + 1 ∧
      (∀ c ∈ front, ∀ i ∈ c, q.sendable pfcGran env i = .ok false) ∧
      (q.rrlasts 0)[prio + front.length]? = some rr ∧
      firstFrom (q.sendable pfcGran env) 0 (cls.rotate rr) = .ok (some (f.rrlast, f.qIndex)) := by
  induction classes generalizing prio with
  | nil => cases h
  | cons cls rest ih =>
    rw [scan_cons] at h
    obtain ⟨found, scanned, h⟩ := bind_ok h
    rcases found with _ | ⟨j, i⟩
    · obtain ⟨front, c, later, rr, rfl, at_prio, skipped, start, stops⟩ := ih h
      refine ⟨cls :: front, c, later, rr, rfl, ?_, ?_, ?_, stops⟩
      · rw [List.length_cons]
        omega
      · intro c' member
        rcases List.mem_cons.mp member with rfl | behind
        · exact scanClass_skipped scanned
        · exact skipped c' behind
      · rw [List.length_cons, ← start]
        congr 1
        omega
    · cases h
      unfold BEgressQueue.scanClass at scanned
      split at scanned
      · cases scanned
      · obtain ⟨rr, start, scanned⟩ := bind_ok scanned
        exact ⟨[], cls, rest, rr, rfl, rfl, nofun, readAt_ok start, scanned⟩

/-- A call finds nothing to send, or sends from the queue of its scan and changes one offset. -/
theorem dequeueRR_memory (h : q.dequeueRR pfcGran env = .ok (t, r)) :
    t.priorities = q.priorities ∧
      ((r = none ∧ t.rrlasts = q.rrlasts ∧
          (q.bytesInQueueTotal = 0 ∨ q.scan pfcGran env 0 (q.priorities 0) = .ok none)) ∨
        ∃ f, q.bytesInQueueTotal ≠ 0 ∧ q.scan pfcGran env 0 (q.priorities 0) =
          .ok (some f) ∧ r.isSome ∧
          t.qlast = f.qIndex ∧ ∀ k ≠ f.prio, (t.rrlasts 0)[k]? = (q.rrlasts 0)[k]?) := by
  unfold BEgressQueue.dequeueRR BEgressQueue.doDequeueRRWith at h
  split at h
  · rename_i empty
    cases h
    exact ⟨rfl, .inl ⟨rfl, rfl, .inl empty⟩⟩
  · rename_i some_bytes
    obtain ⟨found, scanned, h⟩ := bind_ok h
    cases found with
    | none =>
      dsimp only at h
      split at h
      · obtain ⟨u, idle, h⟩ := bind_ok h
        cases h
        have same := limiters_memory skipIdle_memory idle
        exact ⟨same.priorities, .inl ⟨rfl, same.rrlasts, .inr scanned⟩⟩
      · cases h
        exact ⟨rfl, .inl ⟨rfl, rfl, .inr scanned⟩⟩
    | some f =>
      obtain ⟨⟨u, p⟩, popped, h⟩ := bind_ok h
      obtain ⟨v, written, h⟩ := bind_ok h
      obtain ⟨w, limits, h⟩ := bind_ok h
      cases h
      have first := pop_memory popped
      obtain ⟨levels, last, offsets⟩ := spillRrlast_memory written
      have behind := limiters_memory limit_memory limits
      refine ⟨behind.priorities.trans (levels.trans first.priorities),
        .inr ⟨f, some_bytes, scanned, rfl, behind.qlast.trans last, fun k other => ?_⟩⟩
      rw [behind.rrlasts, offsets k other, first.rrlasts]

/-! ### One turn -/

theorem ring_at {cls : List ℕ} {rr : ℕ} (levels : (q.priorities 0)[level]? = some cls)
    (start : (q.rrlasts 0)[level]? = some rr) : q.ring level = cls.rotate rr := by
  simp [BEgressQueue.ring, List.getD, levels, start]

theorem ring_same (levels : t.priorities = q.priorities)
    (offset : (t.rrlasts 0)[level]? = (q.rrlasts 0)[level]?) : t.ring level = q.ring level := by
  simp [BEgressQueue.ring, List.getD, levels, offset]

theorem reaches_iff {queue : Option ℕ} :
    Turn.reaches pfcGran level a b ⟨q, env, queue⟩ = true ↔
      q.bytesInQueueTotal ≠ 0 ∧ ∀ i ∈ ahead a b (q.ring level), q.sendable pfcGran env i =
        .ok false := by
  simp [Turn.reaches, toOption_eq_some]

/-- The scan of a call that serves no level before the one of two queues that can send ends in their
level. -/
theorem scan_at_level {cls : List ℕ} (scanned : q.scan pfcGran env 0 (q.priorities 0) =
    .ok (some f)) (levels : (q.priorities 0)[level]? = some cls) (member : a ∈ cls)
    (sends : q.sendable pfcGran env a = .ok true)
    (noneAbove : ∀ c ∈ (q.priorities 0).take level, f.qIndex ∉ c) :
    f.prio = level + 1 ∧
      firstFrom (q.sendable pfcGran env) 0 (q.ring level) = .ok (some (f.rrlast, f.qIndex)) := by
  obtain ⟨front, c, rest, rr, classes, at_prio, skipped, start, stops⟩ := scan_stops scanned
  rw [Nat.zero_add] at at_prio start
  rcases Nat.lt_trichotomy front.length level with before | here | behind
  · have inside : c ∈ (q.priorities 0).take level := by
      rw [classes, List.take_append, List.take_of_length_le (Nat.le_of_lt before)]
      obtain ⟨k, more⟩ : ∃ k, level - front.length = k + 1 := ⟨level - front.length - 1, by omega⟩
      rw [more]
      exact List.mem_append_right front List.mem_cons_self
    obtain ⟨passed, later, ring, -⟩ := firstFrom_eq_some.mp stops
    have found : f.qIndex ∈ c.rotate rr := by
      rw [ring]
      exact List.mem_append_right passed List.mem_cons_self
    exact absurd (List.mem_rotate.mp found) (noneAbove c inside)
  · subst here
    have same : c = cls := by
      rw [classes] at levels
      simpa using levels
    subst same
    rw [ring_at levels start]
    exact ⟨at_prio, stops⟩
  · rw [classes, List.getElem?_append_left behind] at levels
    have held := skipped cls (List.mem_of_getElem? levels) a member
    rw [sends] at held
    cases held

/-- In a turn without a level before theirs, the first of two queues in the ring is served when the
scan comes to it; the other one is not, and the ring stays. -/
theorem turn_spec {cls rest : List ℕ} (h : q.dequeueRR pfcGran env = .ok (t, r))
    (levels : (q.priorities 0)[level]? = some cls) (members : a ∈ cls ∧ b ∈ cls)
    (sends : q.sendable pfcGran env a = .ok true ∧ q.sendable pfcGran env b = .ok true)
    (noneAbove : ∀ i, (r.map fun _ => t.qlast) = some i → ∀ c ∈ (q.priorities 0).take level, i ∉ c)
    (first : x = a ∨ x = b) (cut : q.ring level = ahead a b (q.ring level) ++ x :: rest) :
    t.priorities = q.priorities ∧ t.ring level = q.ring level ∧
      ((r.map fun _ => t.qlast) = some x ↔
        Turn.reaches pfcGran level a b ⟨q, env, r.map fun _ => t.qlast⟩ = true) ∧
      ∀ y, y = a ∨ y = b → y ≠ x → (r.map fun _ => t.qlast) ≠ some y := by
  obtain ⟨same, ⟨rfl, offsets, nothing⟩ | ⟨f, some_bytes, scanned, some_r, last, offsets⟩⟩ :=
    dequeueRR_memory h
  · refine ⟨same, ring_same same (by rw [offsets]), ?_, fun y _ _ => nofun⟩
    have empty : q.bytesInQueueTotal = 0 := by
      rcases nothing with empty | scanned
      · exact empty
      · have held := scan_skipped scanned cls (List.mem_of_getElem? levels) a members.1
        rw [sends.1] at held
        cases held
    rw [reaches_iff]
    constructor
    · nofun
    · rintro ⟨some_bytes, -⟩
      exact absurd empty some_bytes
  · obtain ⟨p, rfl⟩ := Option.isSome_iff_exists.mp some_r
    have queue : ((some p).map fun _ => t.qlast) = some f.qIndex := congrArg some last
    rw [queue] at noneAbove ⊢
    obtain ⟨at_prio, stops⟩ :=
      scan_at_level scanned levels members.1 sends.1 (noneAbove f.qIndex rfl)
    refine ⟨same, ring_same same (offsets level (by omega)), ?_⟩
    have sends_x : q.sendable pfcGran env x = .ok true := by
      rcases first with rfl | rfl
      · exact sends.1
      · exact sends.2
    rw [cut] at stops
    rw [reaches_iff]
    rcases firstFrom_ahead stops sends_x with ⟨found, skipped⟩ | ⟨found, held⟩
    · rw [found]
      refine ⟨⟨fun _ => ⟨some_bytes, skipped⟩, fun _ => rfl⟩, fun y _ other same => ?_⟩
      exact other (Option.some.inj same).symm
    · obtain ⟨not_a, not_b⟩ := mem_ahead found
      refine ⟨⟨fun same => ?_, fun reached => absurd reached.2 held⟩, fun y which _ same => ?_⟩
      · rcases first with rfl | rfl
        · exact absurd (Option.some.inj same) not_a
        · exact absurd (Option.some.inj same) not_b
      · rcases which with rfl | rfl
        · exact not_a (Option.some.inj same)
        · exact not_b (Option.some.inj same)

/-! ### An interval -/

/-- Over an interval the first of two queues in the ring is served whenever the scan comes to it,
the other never. -/
theorem turns_spec {cls rest : List ℕ} {calls : List QueueCall} {ts : List Turn}
    (h : turns pfcGran q calls = .ok ts) (levels : (q.priorities 0)[level]? = some cls)
    (members : a ∈ cls ∧ b ∈ cls) (stays : ∀ t ∈ ts, t.before.sendable pfcGran t.env a = .ok true ∧
      t.before.sendable pfcGran t.env b = .ok true)
    (noneAbove : ∀ t ∈ ts, ∀ i, t.queue = some i → ∀ c ∈ (q.priorities 0).take level, i ∉ c)
    (first : x = a ∨ x = b) (cut : q.ring level = ahead a b (q.ring level) ++ x :: rest) :
    ∀ t ∈ ts, (t.queue = some x ↔ t.reaches pfcGran level a b = true) ∧
      ∀ y, y = a ∨ y = b → y ≠ x → t.queue ≠ some y := by
  induction calls generalizing q ts with
  | nil =>
    cases h
    nofun
  | cons call calls ih =>
    cases call with
    | enqueue p qIndex =>
      obtain ⟨u, stored, h⟩ := bind_ok h
      have same := enqueue_memory stored
      have ring : u.ring level = q.ring level := ring_same same.priorities (by rw [same.rrlasts])
      rw [← same.priorities] at levels noneAbove
      rw [← ring] at cut
      exact ih h levels stays noneAbove cut
    | dequeueRR env =>
      obtain ⟨⟨u, r⟩, sent, h⟩ := bind_ok h
      obtain ⟨later, run, h⟩ := bind_ok h
      cases h
      obtain ⟨same, ring, here⟩ := turn_spec sent levels members (stays _ List.mem_cons_self)
        (noneAbove _ List.mem_cons_self) first cut
      intro t member
      rcases List.mem_cons.mp member with rfl | behind
      · exact here
      · rw [← same] at levels noneAbove
        rw [← ring] at cut
        exact ih run levels (fun t m => stays t (List.mem_cons_of_mem _ m))
          (fun t m => noneAbove t (List.mem_cons_of_mem _ m)) cut t behind

/-- Two queues of a level share an interval fairly exactly when the scan comes to them in at most
one turn. -/
theorem fair_iff {calls : List QueueCall} {ts : List Turn} (h : turns pfcGran q calls = .ok ts)
    (contest : Contest pfcGran q level a b ts) :
    Fair ts a b ↔ ts.countP (Turn.reaches pfcGran level a b) ≤ 1 := by
  obtain ⟨cls, levels, members⟩ := contest.members
  have inside : a ∈ q.ring level := by
    unfold BEgressQueue.ring
    rw [List.getD, levels]
    exact List.mem_rotate.mpr members.1
  obtain ⟨x, rest, first, cut⟩ := ahead_split (b := b) inside
  have each := turns_spec h levels members contest.stays contest.noneAbove first cut
  have of_first : served ts x = ts.countP (Turn.reaches pfcGran level a b) :=
    List.countP_congr fun t member => by simpa using (each t member).1
  have of_other : ∀ y, y = a ∨ y = b → y ≠ x → served ts y = 0 := fun y which other =>
    List.countP_eq_zero.mpr fun t member => by simpa using (each t member).2 y which other
  unfold Fair
  rcases first with rfl | rfl
  · rw [of_other b (.inr rfl) (Ne.symm contest.other), of_first]
    omega
  · rw [of_other a (.inl rfl) contest.other, of_first]
    omega

/-! ### Two levels -/

/-- A port with queues 1 and 2 above queue 3. -/
def twoLevels : BEgressQueue :=
  let q : BEgressQueue :=
    { maxBytes := 100, pifo := false, useHierQ := false, rateLimiterMode := 0 }
  q.setPriority [[1, 2], [3]]

/-- Three packets for queue 1 and one for queue 2, then two calls of `DequeueRR`. -/
def twoCalls : List QueueCall :=
  let p : Packet := ⟨.udp, 1, 1, 0, 10, none, none, false, none⟩
  let env : Env := ⟨0, fun _ => false, fun _ => none⟩
  [.enqueue p 1, .enqueue p 1, .enqueue p 1, .enqueue p 2, .dequeueRR env, .dequeueRR env]

theorem contest_run {q : BEgressQueue} {l : ℕ} {cls : List ℕ}
    (levels : (q.priorities 0)[l]? = some cls) (members : 1 ∈ cls ∧ 2 ∈ cls)
    (above : ∀ c ∈ (q.priorities 0).take l, 1 ∉ c ∧ 2 ∉ c)
    (ends : (turns .pg q twoCalls).toOption.any (fun ts => decide (
      (∀ t ∈ ts, (t.before.sendable .pg t.env 1).toOption = some true ∧
        (t.before.sendable .pg t.env 2).toOption = some true ∧ ∀ i ∈ t.queue, i = 1 ∨ i = 2) ∧
      served ts 1 = 2 ∧ served ts 2 = 0)) = true) :
    ∃ ts, turns .pg q twoCalls = .ok ts ∧ Contest .pg q l 1 2 ts ∧ served ts 1 = 2 ∧
      served ts 2 = 0 := by
  obtain ⟨ts, run, facts⟩ := (Option.any_eq_true ..).mp ends
  obtain ⟨stays, counts⟩ := of_decide_eq_true facts
  refine ⟨ts, toOption_eq_some.mp run, ⟨by decide, ⟨cls, levels, members⟩,
    fun t member => ?_, fun t member i sent => ?_⟩, counts⟩
  · obtain ⟨sends, sends', -⟩ := stays t member
    exact ⟨toOption_eq_some.mp sends, toOption_eq_some.mp sends'⟩
  · intro c inside
    rcases (stays t member).2.2 i sent with rfl | rfl
    · exact (above c inside).1
    · exact (above c inside).2

/-- Both calls take a packet of queue 1. -/
theorem twoCalls_unfair : ∃ ts, turns .pg twoLevels twoCalls = .ok ts ∧
    Contest .pg twoLevels 0 1 2 ts ∧
    ¬Fair ts 1 2 := by
  obtain ⟨ts, run, contest, of_one, of_two⟩ :=
    contest_run (q := twoLevels) (l := 0) rfl (by decide) (by decide) (by decide +kernel)
  refine ⟨ts, run, contest, fun fair => ?_⟩
  have bound := fair.1
  omega

/-- The same two queues at the last level, where the offset is written past the end of the
vector. -/
def lastLevel : BEgressQueue := twoLevels.setPriority [[0], [1, 2]]

theorem fair_iff_lastLevel : ∃ ts, turns .pg lastLevel twoCalls = .ok ts ∧ served ts 1 = 2 ∧
    (Fair ts 1 2 ↔ ts.countP (Turn.reaches .pg 1 1 2) ≤ 1) := by
  obtain ⟨ts, run, contest, of_one, -⟩ :=
    contest_run (q := lastLevel) (l := 1) rfl (by decide) (by decide) (by decide +kernel)
  exact ⟨ts, run, of_one, fair_iff run contest⟩

end Egress

end Pyrrha

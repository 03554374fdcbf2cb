import Pyrrha.Egress.Queue

/-!
The sizes of the vectors of a `BEgressQueue`. They stay equal, and the queue ids it keeps stay below
them: an access at such an id is in range, and only an assert can stop a call.
-/

namespace Pyrrha
open Lib

namespace Egress

/-- Every vector has one element for each queue, `m_rrlasts[0]` has one for each class, and every
queue id that the structure keeps is one of a queue. -/
structure WellSized (q : BEgressQueue) : Prop where
  bytesInQueue : q.bytesInQueue.length = q.queues.length
  pfcCtrls : q.pfcCtrls.length = q.queues.length
  rateLimiters : q.rateLimiters.length = q.queues.length
  nxtAvails : q.nxtAvails.length = q.queues.length
  rateLimiting : q.rateLimiting.length = q.queues.length
  rrlasts : (q.rrlasts 0).length = (q.priorities 0).length
  classes : q.priorities 0 ≠ []
  levels : ∀ {level}, q.hierQMap level ≠ none → q.priorities level ≠ []
  members : ∀ {level cls i}, cls ∈ q.priorities level → i ∈ cls → i < q.queues.length
  dsts : ∀ {d i}, q.dstQMap d = some i → i < q.queues.length
  queueNum_le : queueNum ≤ q.queues.length

/-- No vector changes its size, and no queue id changes. -/
structure SameShape (q t : BEgressQueue) : Prop where
  queues : t.queues.length = q.queues.length
  bytesInQueue : t.bytesInQueue.length = q.bytesInQueue.length
  pfcCtrls : t.pfcCtrls.length = q.pfcCtrls.length
  rateLimiters : t.rateLimiters.length = q.rateLimiters.length
  nxtAvails : t.nxtAvails.length = q.nxtAvails.length
  rateLimiting : t.rateLimiting.length = q.rateLimiting.length
  rrlasts : (t.rrlasts 0).length = (q.rrlasts 0).length
  priorities : t.priorities = q.priorities
  hierQMap : t.hierQMap = q.hierQMap
  dstQMap : t.dstQMap = q.dstQMap

/-- More queues. -/
structure Grown (q t : BEgressQueue) : Prop where
  sized : WellSized t
  queues_le : q.queues.length ≤ t.queues.length

/-- The errors that are no accesses outside a vector. -/
abbrev Asserts : Fault → Prop := (· = .assertion)

variable {q t u : BEgressQueue} {i size now : ℕ} {p : Packet} {pfcGran : PauseGran}
    {env : Env} {f : Found}

theorem sameShape_refl (q : BEgressQueue) : SameShape q q :=
  ⟨rfl, rfl, rfl, rfl, rfl, rfl, rfl, rfl, rfl, rfl⟩

theorem sameShape_trans (first : SameShape q t) (second : SameShape t u) : SameShape q u where
  queues := second.queues.trans first.queues
  bytesInQueue := second.bytesInQueue.trans first.bytesInQueue
  pfcCtrls := second.pfcCtrls.trans first.pfcCtrls
  rateLimiters := second.rateLimiters.trans first.rateLimiters
  nxtAvails := second.nxtAvails.trans first.nxtAvails
  rateLimiting := second.rateLimiting.trans first.rateLimiting
  rrlasts := second.rrlasts.trans first.rrlasts
  priorities := second.priorities.trans first.priorities
  hierQMap := second.hierQMap.trans first.hierQMap
  dstQMap := second.dstQMap.trans first.dstQMap

theorem wellSized_same (w : WellSized q) (same : SameShape q t) : WellSized t where
  bytesInQueue := by rw [same.bytesInQueue, same.queues, w.bytesInQueue]
  pfcCtrls := by rw [same.pfcCtrls, same.queues, w.pfcCtrls]
  rateLimiters := by rw [same.rateLimiters, same.queues, w.rateLimiters]
  nxtAvails := by rw [same.nxtAvails, same.queues, w.nxtAvails]
  rateLimiting := by rw [same.rateLimiting, same.queues, w.rateLimiting]
  rrlasts := by rw [same.rrlasts, same.priorities, w.rrlasts]
  classes := by
    rw [same.priorities]
    exact w.classes
  levels := by
    rw [same.hierQMap, same.priorities]
    exact w.levels
  members := by
    rw [same.priorities, same.queues]
    exact w.members
  dsts := by
    rw [same.dstQMap, same.queues]
    exact w.dsts
  queueNum_le := by
    rw [same.queues]
    exact w.queueNum_le

theorem grown_same (w : WellSized q) (same : SameShape q t) : Grown q t :=
  ⟨wellSized_same w same, Nat.le_of_eq same.queues.symm⟩

/-! ### Enqueue and dequeue of one queue -/

theorem push_asserts (byRank : Bool) (packets : List Packet) :
    Outcome (fun _ => True) Asserts (BEgressQueue.push byRank packets p) := by
  unfold BEgressQueue.push
  split
  · split
    · rfl
    · trivial
  · trivial

theorem doEnqueue_inside (w : WellSized q) (inside : q.room p.size → i < q.queues.length) :
    Outcome (fun r => ∀ t, r = some t → SameShape q t) Asserts (q.doEnqueue p i) := by
  unfold BEgressQueue.doEnqueue
  split
  · rename_i room
    have at_i := inside room
    refine outcome_bind (outcome_readAt at_i) fun packets _ => ?_
    refine outcome_bind (push_asserts _ packets) fun packets' _ => ?_
    refine outcome_bind (outcome_modifyAt (w.bytesInQueue ▸ at_i) _) ?_
    intro bytes len t some_t
    cases some_t
    exact ⟨List.length_set .., len, rfl, rfl, rfl, rfl, rfl, rfl, rfl, rfl⟩
  · nofun

theorem doEnqueue_outside (room : q.room p.size) (outside : q.queues.length ≤ i) :
    q.doEnqueue p i = .error (.outOfRange .queues) := by
  unfold BEgressQueue.doEnqueue
  rw [if_pos room, readAt_outside outside]
  rfl

theorem enqueue_inside (w : WellSized q) (inside : q.room p.size → i < q.queues.length) :
    Outcome (SameShape q) Asserts (q.enqueue p i) := by
  refine outcome_map (outcome_weaken (doEnqueue_inside w inside) ?_)
  intro r same
  cases r with
  | none => exact sameShape_refl q
  | some t => exact same t rfl

theorem enqueue_outside (room : q.room p.size) (outside : q.queues.length ≤ i) :
    q.enqueue p i = .error (.outOfRange .queues) := by
  rw [BEgressQueue.enqueue, doEnqueue_outside room outside]
  rfl

theorem pop_inside (w : WellSized q) (at_i : i < q.queues.length) :
    Outcome (fun r => SameShape q r.1) Asserts (q.pop i) := by
  unfold BEgressQueue.pop
  refine outcome_bind (outcome_readAt at_i) fun packets _ => ?_
  cases packets with
  | nil => rfl
  | cons p rest =>
    refine outcome_bind (outcome_modifyAt (w.bytesInQueue ▸ at_i) _) fun bytes len => ?_
    exact ⟨List.length_set .., len, rfl, rfl, rfl, rfl, rfl, rfl, rfl, rfl⟩

/-! ### The scan -/

theorem limited_asserts (w : WellSized q) (at_i : i < q.queues.length) :
    Outcome (fun _ => True) Asserts (q.limited now i) := by
  unfold BEgressQueue.limited
  refine outcome_bind (outcome_readAt (w.rateLimiters ▸ at_i)) fun limiter _ => ?_
  split
  · trivial
  · exact outcome_bind (outcome_readAt (w.nxtAvails ▸ at_i)) fun _ _ => trivial

theorem sendable_asserts (w : WellSized q) (at_i : i < q.queues.length) :
    Outcome (fun _ => True) Asserts (q.sendable pfcGran env i) := by
  unfold BEgressQueue.sendable
  refine outcome_bind (outcome_readAt at_i) fun packets _ => ?_
  split
  · trivial
  · rename_i top _
    refine outcome_bind (limited_asserts w at_i) fun held _ => ?_
    split
    · trivial
    · refine outcome_bind (outcome_readAt (w.pfcCtrls ▸ at_i)) fun pfcCtrl _ => ?_
      split
      · trivial
      · cases pfcGran with
        | pg => trivial
        | dst =>
          dsimp only
          split
          · cases env.ip2id top.dip with
            | none => rfl
            | some dst => trivial
          · trivial
        | qp =>
          dsimp only
          split
          · cases top.qpid with
            | none => rfl
            | some qpid => trivial
          · trivial
        | off | spot | queue => rfl

theorem scanClass_asserts {prio : ℕ} {cls : List ℕ} (w : WellSized q)
    (here : prio < (q.priorities 0).length) (ids : ∀ i ∈ cls, i < q.queues.length) :
    Outcome (fun _ => True) Asserts (q.scanClass pfcGran env prio cls) := by
  unfold BEgressQueue.scanClass
  split
  · trivial
  · rw [readAt_inside (w.rrlasts ▸ here)]
    exact outcome_firstFrom fun i member => sendable_asserts w (ids i (List.mem_rotate.mp member))

/-- The scan of a class finds nothing when none of its queues can send. -/
theorem scanClass_none {prio : ℕ} {cls : List ℕ} (w : WellSized q)
    (here : prio < (q.priorities 0).length) :
    q.scanClass pfcGran env prio cls = .ok none ↔ ∀ i ∈ cls, q.sendable pfcGran env i =
      .ok false := by
  unfold BEgressQueue.scanClass
  split
  · rename_i empty
    subst empty
    simp
  · rw [readAt_inside (w.rrlasts ▸ here)]
    show firstFrom _ 0 (cls.rotate _) = .ok none ↔ _
    rw [firstFrom_eq_none]
    simp only [List.mem_rotate]

theorem scan_cons {prio : ℕ} {cls : List ℕ} {rest : List (List ℕ)} :
    q.scan pfcGran env prio (cls :: rest) = q.scanClass pfcGran env prio cls >>= fun found =>
      match found with
      | some (i, qIndex) => .ok (some ⟨prio + 1, i, qIndex⟩)
      | none => q.scan pfcGran env (prio + 1) rest := rfl

theorem scan_skip {prio : ℕ} {front rest : List (List ℕ)} (w : WellSized q)
    (here : prio + front.length ≤ (q.priorities 0).length)
    (skipped : ∀ cls ∈ front, ∀ i ∈ cls, q.sendable pfcGran env i = .ok false) :
    q.scan pfcGran env prio (front ++ rest) = q.scan pfcGran env (prio + front.length) rest := by
  induction front generalizing prio with
  | nil => rfl
  | cons cls front ih =>
    rw [List.length_cons] at here ⊢
    have next : q.scan pfcGran env (prio + 1) (front ++ rest) =
        q.scan pfcGran env (prio + 1 + front.length) rest :=
      ih (by omega) fun c member => skipped c (List.mem_cons_of_mem cls member)
    rw [List.cons_append, scan_cons, (scanClass_none w (by omega)).mpr
      (skipped cls List.mem_cons_self)]
    show q.scan pfcGran env (prio + 1) (front ++ rest) = _
    rw [next, Nat.add_assoc, Nat.add_comm 1]

theorem scan_asserts {prio : ℕ} {classes : List (List ℕ)} (w : WellSized q)
    (here : prio + classes.length ≤ (q.priorities 0).length)
    (ids : ∀ cls ∈ classes, ∀ i ∈ cls, i < q.queues.length) :
    Outcome (fun _ => True) Asserts (q.scan pfcGran env prio classes) := by
  induction classes generalizing prio with
  | nil => trivial
  | cons cls rest ih =>
    rw [List.length_cons] at here
    rw [scan_cons]
    refine outcome_bind (scanClass_asserts w (by omega) (ids cls List.mem_cons_self)) fun found _ =>
      ?_
    cases found with
    | some _ => trivial
    | none => exact ih (by omega) fun c member => ids c (List.mem_cons_of_mem cls member)

/-- A scan with a queue to stop at in its first classes leaves `prio` at one of them or at the
next. -/
theorem scan_early {prio : ℕ} {front rest : List (List ℕ)} (w : WellSized q)
    (here : prio + front.length ≤ (q.priorities 0).length)
    (stop : ¬ ∀ cls ∈ front, ∀ i ∈ cls, q.sendable pfcGran env i = .ok false)
    (h : q.scan pfcGran env prio (front ++ rest) = .ok (some f)) :
    f.prio ≤ prio + front.length := by
  induction front generalizing prio with
  | nil => exact absurd nofun stop
  | cons cls front ih =>
    rw [List.length_cons] at here ⊢
    rw [List.cons_append, scan_cons] at h
    obtain ⟨found, scanned, h⟩ := bind_ok h
    rcases found with _ | ⟨i, j⟩
    · have skipped := (scanClass_none w (by omega)).mp scanned
      have later : ¬ ∀ c ∈ front, ∀ i ∈ c, q.sendable pfcGran env i = .ok false := by
        intro all
        apply stop
        intro c member
        rcases List.mem_cons.mp member with rfl | member
        · exact skipped
        · exact all c member
      have bound := ih (by omega) later h
      omega
    · cases h
      show prio + 1 ≤ _
      omega

/-- A scan that comes to the last class ends with the queue found there, or without one. -/
theorem scan_last {prio rr : ℕ} {cls : List ℕ} (start : (q.rrlasts 0)[prio]? = some rr) :
    q.scan pfcGran env prio [cls] = .ok (some f) ↔
      f.prio = prio + 1 ∧ firstFrom (q.sendable pfcGran env) 0 (cls.rotate rr) =
        .ok (some (f.rrlast, f.qIndex)) := by
  have here : readAt (Fault.outOfRange .rrlasts) (q.rrlasts 0) prio = .ok rr := by
    simp [readAt, start]
  rw [scan_cons, BEgressQueue.scanClass]
  split
  · rename_i empty
    subst empty
    constructor
    · intro h
      cases h
    · rintro ⟨-, none⟩
      rw [List.rotate_nil] at none
      cases none
  · rw [here]
    show firstFrom _ 0 (cls.rotate rr) >>= _ = _ ↔ _
    cases firstFrom (q.sendable pfcGran env) 0 (cls.rotate rr) with
    | error e =>
      constructor
      · intro h
        cases h
      · rintro ⟨-, h⟩
        cases h
    | ok found =>
      obtain ⟨prio', rrlast, qIndex⟩ := f
      rcases found with _ | ⟨i, j⟩
      · constructor
        · intro h
          cases h
        · rintro ⟨-, h⟩
          cases h
      · constructor
        · intro h
          cases h
          exact ⟨rfl, rfl⟩
        · rintro ⟨rfl, h⟩
          cases h
          rfl

/-! ### DoDequeueRR -/

theorem skipIdle_inside (w : WellSized q) (at_i : i < q.queues.length) :
    Outcome (SameShape q) Asserts (BEgressQueue.skipIdle now q i) := by
  have same := sameShape_refl q
  unfold BEgressQueue.skipIdle
  refine outcome_bind (outcome_readAt (w.rateLimiters ▸ at_i)) fun limiter _ => ?_
  split
  · exact same
  · refine outcome_bind (outcome_readAt (w.bytesInQueue ▸ at_i)) fun bytes _ => ?_
    split
    · exact same
    · refine outcome_bind (outcome_readAt (w.nxtAvails ▸ at_i)) fun avail _ => ?_
      split
      · exact same
      · refine outcome_bind (outcome_modifyAt (w.nxtAvails ▸ at_i) _) fun nxtAvails len => ?_
        exact { same with nxtAvails := len }

theorem limit_inside {qIndex : ℕ} (w : WellSized q) (at_i : i < q.queues.length) :
    Outcome (SameShape q) Asserts (BEgressQueue.limit now size qIndex q i) := by
  have same := sameShape_refl q
  unfold BEgressQueue.limit
  split
  · refine outcome_bind (outcome_readAt (w.rateLimiters ▸ at_i)) fun limiter _ => ?_
    cases limiter with
    | none => exact same
    | some txTime =>
      refine outcome_bind (outcome_readAt (w.rateLimiting ▸ at_i)) fun started _ => ?_
      refine outcome_bind (outcome_modifyAt (w.rateLimiting ▸ at_i) _) fun rateLimiting len => ?_
      refine outcome_bind (outcome_modifyAt (w.nxtAvails ▸ at_i) _) fun nxtAvails len' => ?_
      exact { same with rateLimiting := len, nxtAvails := len' }
  · split
    · exact skipIdle_inside w at_i
    · exact same

theorem limiters_inside {turn : BEgressQueue → ℕ → Except Fault BEgressQueue} (w : WellSized q)
    (turns : ∀ {t : BEgressQueue} {i : ℕ}, WellSized t → i < t.queues.length →
      Outcome (SameShape t) Asserts (turn t i)) :
    Outcome (SameShape q) Asserts ((List.range q.rateLimiters.length).foldlM turn q) := by
  refine outcome_foldlM ?_ (sameShape_refl q)
  intro i member t same
  have at_i : i < t.queues.length := by
    rw [same.queues, ← w.rateLimiters]
    exact List.mem_range.mp member
  exact outcome_weaken (turns (wellSized_same w same) at_i) fun u next => sameShape_trans same next

theorem setRrlast_inside (w : WellSized q) (inside : f.qIndex ≠ 0 →
    f.prio < (q.priorities 0).length) : Outcome (SameShape q) Asserts (q.setRrlast f) := by
  have same := sameShape_refl q
  unfold BEgressQueue.setRrlast
  split
  · exact { same with }
  · rename_i other
    refine outcome_bind (outcome_modifyAt (w.rrlasts ▸ inside other) _) fun rrlasts len => ?_
    have at_zero : Function.update q.rrlasts 0 rrlasts 0 = rrlasts := Function.update_self ..
    exact { same with rrlasts := (congrArg List.length at_zero).trans len }

theorem setRrlast_outside (w : WellSized q) (other : f.qIndex ≠ 0)
    (outside : (q.priorities 0).length ≤ f.prio) :
    q.setRrlast f = .error (.outOfRange .rrlasts) := by
  unfold BEgressQueue.setRrlast
  rw [if_neg other, modifyAt_outside (w.rrlasts ▸ outside)]
  rfl

/-- The turn of the last class ends at queue 0 or without a queue, unless a queue before it is one
to stop at. -/
def ScanInside (q : BEgressQueue) (pfcGran : PauseGran) (env : Env) : Prop :=
  ∀ front last, q.priorities 0 = front ++ [last] →
    (∀ cls ∈ front, ∀ i ∈ cls, q.sendable pfcGran env i = .ok false) →
    ∀ before i after, last.rotate ((q.rrlasts 0).getD front.length 0) = before ++ i :: after →
      (∀ j ∈ before, q.sendable pfcGran env j = .ok false) →
        q.sendable pfcGran env i = .ok true → i = 0

theorem scan_found {prio : ℕ} {classes : List (List ℕ)}
    (h : q.scan pfcGran env prio classes = .ok (some f)) :
    ∃ cls ∈ classes, f.qIndex ∈ cls ∧ q.sendable pfcGran env f.qIndex = .ok true := by
  induction classes generalizing prio with
  | nil => cases h
  | cons cls rest ih =>
    rw [scan_cons] at h
    obtain ⟨found, scanned, h⟩ := bind_ok h
    rcases found with _ | ⟨i, j⟩
    · obtain ⟨c, member, at_f⟩ := ih h
      exact ⟨c, List.mem_cons_of_mem cls member, at_f⟩
    · cases h
      unfold BEgressQueue.scanClass at scanned
      split at scanned
      · cases scanned
      · obtain ⟨rr, -, scanned⟩ := bind_ok scanned
        obtain ⟨before, after, ring, -, -, sends⟩ := firstFrom_eq_some.mp scanned
        have member : j ∈ cls.rotate rr := by
          rw [ring]
          exact List.mem_append_right before List.mem_cons_self
        exact ⟨cls, List.mem_cons_self, List.mem_rotate.mp member, sends⟩

/-- The scan leaves `prio` inside the classes, unless it has found another queue than 0 in the last
one. -/
theorem scanInside_iff (w : WellSized q) :
    ScanInside q pfcGran env ↔
      ∀ f, q.scan pfcGran env 0 (q.priorities 0) = .ok (some f) → f.qIndex ≠ 0 →
      f.prio < (q.priorities 0).length := by
  have start : ∀ {k : ℕ}, k < (q.priorities 0).length →
      (q.rrlasts 0)[k]? = some ((q.rrlasts 0).getD k 0) := by
    intro k here
    rw [← w.rrlasts] at here
    simp [List.getD, List.getElem?_eq_getElem here]
  constructor
  · intro inside f scanned other
    obtain ⟨front, last, cut⟩ : ∃ front last, q.priorities 0 = front ++ [last] :=
      ⟨_, _, (List.dropLast_append_getLast w.classes).symm⟩
    have len : (q.priorities 0).length = front.length + 1 := by simp [cut]
    rw [cut] at scanned
    by_cases skipped : ∀ cls ∈ front, ∀ i ∈ cls, q.sendable pfcGran env i = .ok false
    · rw [scan_skip w (by omega) skipped, Nat.zero_add, scan_last (start (by omega))] at scanned
      obtain ⟨before, after, ring, -, passed, sends⟩ := firstFrom_eq_some.mp scanned.2
      exact absurd (inside front last cut skipped before f.qIndex after ring passed sends) other
    · have bound := scan_early w (by omega) skipped scanned
      omega
  · intro bounded front last cut skipped before i after ring passed sends
    have len : (q.priorities 0).length = front.length + 1 := by simp [cut]
    by_contra other
    have found : q.scan pfcGran env 0 (q.priorities 0) =
        .ok (some ⟨front.length + 1, before.length, i⟩) := by
      rw [cut, scan_skip w (by omega) skipped, Nat.zero_add, scan_last (start (by omega))]
      exact ⟨rfl, firstFrom_eq_some.mpr ⟨before, after, ring, (Nat.zero_add _).symm, passed, sends⟩⟩
    have bound := bounded _ found other
    dsimp only at bound
    omega

theorem sendable_front (h : q.sendable pfcGran env i = .ok true) :
    ∃ p rest, q.queues[i]? = some (p :: rest) := by
  unfold BEgressQueue.sendable at h
  obtain ⟨packets, read, h⟩ := bind_ok h
  cases packets with
  | nil => cases h
  | cons p rest => exact ⟨p, rest, readAt_ok read⟩

theorem pop_front {rest : List Packet} (w : WellSized q) (front : q.queues[i]? = some (p :: rest)) :
    ∃ t, q.pop i = .ok (t, p) ∧ SameShape q t ∧ t.maxBytes = q.maxBytes ∧
      t.bytesInQueueTotal = sub32 q.bytesInQueueTotal p.size := by
  obtain ⟨at_i, -⟩ := List.getElem?_eq_some_iff.mp front
  have read : readAt (Fault.outOfRange .queues) q.queues i = .ok (p :: rest) := by
    simp [readAt, front]
  have bytes : modifyAt (Fault.outOfRange .bytesInQueue) q.bytesInQueue i (sub32 · p.size) =
      .ok _ :=
    modifyAt_inside (w.bytesInQueue ▸ at_i) _
  have popped : ∃ t, q.pop i = .ok (t, p) ∧ t.maxBytes = q.maxBytes ∧
      t.bytesInQueueTotal = sub32 q.bytesInQueueTotal p.size := by
    unfold BEgressQueue.pop
    rw [read]
    show ∃ t, modifyAt _ q.bytesInQueue i _ >>= _ = _ ∧ _
    rw [bytes]
    exact ⟨_, rfl, rfl, rfl⟩
  obtain ⟨t, popped, kept⟩ := popped
  have same := outcome_result (pop_inside w at_i) popped
  exact ⟨t, popped, same, kept⟩

theorem doDequeueRR_inside (w : WellSized q) (inside : q.bytesInQueueTotal ≠ 0 →
    ScanInside q pfcGran env) :
    Outcome (fun r => SameShape q r.1) Asserts (q.doDequeueRR pfcGran env) := by
  have ids : ∀ cls ∈ q.priorities 0, ∀ i ∈ cls, i < q.queues.length :=
    fun cls member i => w.members member
  unfold BEgressQueue.doDequeueRR BEgressQueue.doDequeueRRWith
  split
  · exact sameShape_refl q
  · rename_i some_bytes
    refine outcome_bind (outcome_call (scan_asserts w (Nat.le_of_eq (Nat.zero_add _)) ids)) ?_
    rintro (_ | f) ⟨scanned, -⟩
    · dsimp only
      split
      · refine outcome_bind (limiters_inside w skipIdle_inside) fun t same => ?_
        exact same
      · exact sameShape_refl q
    · obtain ⟨cls, member, at_f, -⟩ := scan_found scanned
      refine outcome_bind (pop_inside w (ids cls member f.qIndex at_f)) ?_
      rintro ⟨t, p⟩ same
      have bound : f.qIndex ≠ 0 → f.prio < (t.priorities 0).length := by
        rw [same.priorities]
        exact (scanInside_iff w).mp (inside some_bytes) f scanned
      have w_t := wellSized_same w same
      refine outcome_bind (setRrlast_inside w_t bound) fun u next => ?_
      refine outcome_bind (limiters_inside (wellSized_same w_t next) limit_inside) fun v last => ?_
      exact sameShape_trans same (sameShape_trans next last)

theorem doDequeueRR_outside (w : WellSized q) (some_bytes : q.bytesInQueueTotal ≠ 0)
    (outside : ¬ ScanInside q pfcGran env) : q.doDequeueRR pfcGran env =
      .error (.outOfRange .rrlasts) := by
  rw [scanInside_iff w] at outside
  simp only [not_forall, Nat.not_lt] at outside
  obtain ⟨f, scanned, other, past⟩ := outside
  obtain ⟨-, -, -, sends⟩ := scan_found scanned
  obtain ⟨p, rest, front⟩ := sendable_front sends
  obtain ⟨t, popped, same, -⟩ := pop_front w front
  have written := setRrlast_outside (wellSized_same w same) other (by rwa [same.priorities])
  unfold BEgressQueue.doDequeueRR BEgressQueue.doDequeueRRWith
  rw [if_neg some_bytes, scanned]
  show q.pop f.qIndex >>= _ = _
  rw [popped]
  show t.setRrlast f >>= _ = _
  rw [written]
  rfl

/-! ### Queues added at run time -/

theorem getNBytes_inside (w : WellSized q) (at_i : i < q.queues.length) :
    Outcome (fun _ => True) Asserts (q.getNBytes i) :=
  outcome_weaken (outcome_readAt (w.bytesInQueue ▸ at_i)) fun _ _ => trivial

theorem getNBytes_outside (w : WellSized q) (outside : q.queues.length ≤ i) :
    q.getNBytes i = .error (.outOfRange .bytesInQueue) := readAt_outside (w.bytesInQueue ▸ outside)

theorem grow_queues (q : BEgressQueue) : q.grow.queues.length = q.queues.length + 1 :=
  List.length_append

theorem grown_grow (w : WellSized q) : Grown q q.grow := by
  have len := grow_queues q
  have more := w.queueNum_le
  have sized : WellSized q.grow := by
    refine ⟨?_, ?_, ?_, ?_, ?_, w.rrlasts, w.classes, w.levels, ?_, ?_, by omega⟩
    · rw [len, ← w.bytesInQueue]
      exact List.length_append
    · rw [len, ← w.pfcCtrls]
      exact List.length_append
    · rw [len, ← w.rateLimiters]
      exact List.length_append
    · rw [len, ← w.nxtAvails]
      exact List.length_append
    · rw [len, ← w.rateLimiting]
      exact List.length_append
    · intro level cls i member at_i
      rw [len]
      exact Nat.lt_succ_of_lt (w.members member at_i)
    · intro d i found
      rw [len]
      exact Nat.lt_succ_of_lt (w.dsts found)
  exact ⟨sized, by omega⟩

theorem addToLast_sized {level id : ℕ} (w : WellSized q) (some_class : q.priorities level ≠ [])
    (at_id : id < q.queues.length) :
    Outcome (fun t => WellSized t ∧ t.queues = q.queues ∧ t.hierQMap = q.hierQMap ∧
      t.dstQMap = q.dstQMap) Asserts (q.addToLast level id) := by
  have positive := List.length_pos_iff.mpr some_class
  have inside : (q.priorities level).length - 1 < (q.priorities level).length := by omega
  unfold BEgressQueue.addToLast
  dsimp only
  rw [modifyAt_inside inside]
  show WellSized _ ∧ _
  have old : ∀ l, (Function.update q.priorities level ((q.priorities level).modify
      ((q.priorities level).length - 1) (· ++ [id])) l).length = (q.priorities l).length := by
    intro l
    by_cases here : l = level
    · subst here
      rw [Function.update_self, List.length_modify]
    · rw [Function.update_of_ne here]
  refine ⟨⟨w.bytesInQueue, w.pfcCtrls, w.rateLimiters, w.nxtAvails, w.rateLimiting, ?_, ?_,
    ?_, ?_, w.dsts, w.queueNum_le⟩, rfl, rfl, rfl⟩
  · exact w.rrlasts.trans (old 0).symm
  · rw [← List.length_pos_iff, old 0, List.length_pos_iff]
    exact w.classes
  · intro l registered
    rw [← List.length_pos_iff, old l, List.length_pos_iff]
    exact w.levels registered
  · intro l cls i member at_i
    dsimp only at member ⊢
    by_cases here : l = level
    · subst here
      rw [Function.update_self] at member
      rcases mem_modify member with before | ⟨c, before, rfl⟩
      · exact w.members before at_i
      · rcases List.mem_append.mp at_i with at_i | at_i
        · exact w.members before at_i
        · rw [List.mem_singleton.mp at_i]
          exact at_id
    · rw [Function.update_of_ne here] at member
      exact w.members member at_i

theorem registerNewQ_sized (w : WellSized q) (level : ℕ) :
    Outcome (fun r => Grown q r.1 ∧ r.2 < r.1.queues.length ∧ r.1.dstQMap = q.dstQMap) Asserts
      (q.registerNewQ level) := by
  have w_g := (grown_grow w).sized
  have len := grow_queues q
  have at_id : q.queues.length < q.grow.queues.length := by omega
  unfold BEgressQueue.registerNewQ
  split
  · rfl
  · dsimp only
    split
    · split
      · refine ⟨⟨⟨w_g.bytesInQueue, w_g.pfcCtrls, w_g.rateLimiters, w_g.nxtAvails, w_g.rateLimiting,
          ?_, ?_, ?_, ?_, w_g.dsts, w_g.queueNum_le⟩, ?_⟩, at_id, rfl⟩
        · dsimp only
          by_cases here : 0 = level
          · subst here
            simp
          · rw [Function.update_of_ne here, Function.update_of_ne here]
            exact w.rrlasts
        · dsimp only
          by_cases here : 0 = level
          · subst here
            simp
          · rw [Function.update_of_ne here]
            exact w.classes
        · intro l registered
          dsimp only at registered ⊢
          by_cases here : l = level
          · subst here
            simp
          · rw [Function.update_of_ne here] at registered ⊢
            exact w.levels registered
        · intro l cls i member at_i
          dsimp only at member ⊢
          by_cases here : l = level
          · subst here
            rw [Function.update_self, List.mem_singleton] at member
            subst member
            rw [List.mem_singleton.mp at_i]
            exact at_id
          · rw [Function.update_of_ne here] at member
            exact w_g.members member at_i
        · exact Nat.le_of_lt at_id
      · rename_i ids registered
        have some_class : q.grow.priorities level ≠ [] := w.levels (by simp [registered])
        refine outcome_bind (addToLast_sized w_g some_class at_id) ?_
        rintro t ⟨w_t, queues, hierQMap, dstQMap⟩
        refine ⟨⟨{ w_t with levels := ?_ }, ?_⟩, ?_, dstQMap⟩
        · intro l other
          dsimp only at other ⊢
          apply w_t.levels
          rw [hierQMap]
          by_cases here : l = level
          · subst here
            show q.hierQMap l ≠ none
            simp [registered]
          · rwa [Function.update_of_ne here] at other
        · show q.queues.length ≤ t.queues.length
          rw [queues]
          exact Nat.le_of_lt at_id
        · show q.queues.length < t.queues.length
          rw [queues]
          exact at_id
    · refine outcome_bind (addToLast_sized w_g w_g.classes at_id) ?_
      rintro t ⟨w_t, queues, -, dstQMap⟩
      refine ⟨⟨w_t, ?_⟩, ?_, dstQMap⟩
      · rw [queues]
        exact Nat.le_of_lt at_id
      · show q.queues.length < t.queues.length
        rw [queues]
        exact at_id

theorem registerVOQ_sized (w : WellSized q) (dst : ℕ) :
    Outcome (fun r => Grown q r.1) Asserts (q.registerVOQ dst) := by
  unfold BEgressQueue.registerVOQ
  split
  · exact grown_same w (sameShape_refl q)
  · refine outcome_bind (registerNewQ_sized w 0) ?_
    rintro ⟨t, id⟩ ⟨⟨w_t, more⟩, at_id, dstQMap⟩
    refine ⟨{ w_t with dsts := ?_ }, more⟩
    intro d i found
    dsimp only at found ⊢
    by_cases here : d = dst
    · subst here
      rw [Function.update_self] at found
      cases found
      exact at_id
    · rw [Function.update_of_ne here] at found
      exact w_t.dsts found

end Egress

end Pyrrha

import Pyrrha.Egress.Port
import Pyrrha.Egress.Sizes

/-!
When the accesses of a port stay inside the vectors of its `BEgressQueue`. The ids that its tables
keep always do; what need not are a priority group, the id in a PFC frame, and the class that
`DoDequeueRR` writes `m_rrlasts` for.
-/

namespace Pyrrha
open Lib

namespace Egress

open Buffer (FcMode)

variable {cfg : Settings} {s t : Port} {q : BEgressQueue}

/-- The invariant: the vectors agree, and a queue id in a table is one of a queue. -/
structure Tabled (cfg : Settings) (s : Port) : Prop where
  sized : WellSized s.queue
  qAssign : ∀ {f i}, s.qAssign f = some i → i < s.queue.queues.length
  oportCiq : ∀ {r i}, s.oportCiq r = some i → i < s.queue.queues.length
  held : ∀ x ∈ s.held, x.2 = matchDefaultQ cfg x.1

/-- `MatchQ` gives the packet its own priority group. -/
def OwnClass (cfg : Settings) (s : Port) (a : Arrival) : Prop :=
  match cfg.fcMode with
  | .pfc | .floodgate | .pfcOff => True
  | .congestionIsolation => s.matchRoot a.roots = none
  | .bfc | .voqDstPfc => False

/-- The condition under which a call stays inside the vectors. -/
def InRange (cfg : Settings) (s : Port) : Request → Prop
  | .arrive _ a =>
    a.verdict = .pass → s.queue.room a.packet.size → OwnClass cfg s a →
      matchDefaultQ cfg a.packet < s.queue.queues.length
  | .release k =>
    ∀ p qIndex, s.held[k]? = some (p, qIndex) → s.queue.room p.size →
    matchDefaultQ cfg p < s.queue.queues.length
  | .dequeue env => s.queue.bytesInQueueTotal ≠ 0 → ScanInside s.queue cfg.pfcFine env
  | .sendPfc cause _ => ∀ qIndex, cause.index cfg = some qIndex → qIndex < s.queue.queues.length
  | .hierMove env level prio i roots =>
    ∀ qIndex p rest, cfg.fcMode = .congestionIsolation → s.hierQueue level prio i = some qIndex →
      s.queue.queues[qIndex]? = some (p :: rest) → env.paused qIndex = false →
      s.matchRoot roots = none →
      add32 (sub32 s.queue.bytesInQueueTotal p.size) p.size < s.queue.maxBytes →
      matchDefaultQ cfg p < s.queue.queues.length
  | .frame _ | .receivePause _ | .receiveCI .. | .checkRelease .. => True

/-! ### What a call does inside -/

theorem tabled_grown (T : Tabled cfg s) (grown : Grown s.queue q) :
    Tabled cfg { s with queue := q } where
  sized := grown.sized
  qAssign found := Nat.lt_of_lt_of_le (T.qAssign found) grown.queues_le
  oportCiq found := Nat.lt_of_lt_of_le (T.oportCiq found) grown.queues_le
  held := T.held

theorem tabled_same (T : Tabled cfg s) (same : SameShape s.queue q) :
    Tabled cfg { s with queue := q } :=
  tabled_grown T (grown_same T.sized same)

theorem matchRoot_lt {roots : List Spot} {ciq : ℕ} (T : Tabled cfg s)
    (found : s.matchRoot roots = some ciq) : ciq < s.queue.queues.length := by
  obtain ⟨r, -, at_r⟩ := List.exists_of_findSome?_eq_some found
  exact T.oportCiq at_r

theorem assign_tabled (T : Tabled cfg s) (fid : ℕ) (c : Buffer.QueueChoice) :
    Tabled cfg (s.assign fid c).1 ∧ (s.assign fid c).2 < s.queue.queues.length := by
  have below : (s.assign fid c).2 < queueNum := by
    unfold Port.assign
    dsimp only
    split
    · have := Nat.mod_lt c.random (show 0 < queueNum - 1 by decide)
      omega
    · omega
  have at_q : (s.assign fid c).2 < s.queue.queues.length :=
    Nat.lt_of_lt_of_le below T.sized.queueNum_le
  refine ⟨⟨T.sized, ?_, T.oportCiq, T.held⟩, at_q⟩
  intro f i found
  have look : Function.update s.qAssign fid (some (s.assign fid c).2) f = some i := found
  rw [Function.update_apply] at look
  split at look
  · cases look
    exact at_q
  · exact T.qAssign look

theorem matchQ_inside (T : Tabled cfg s) (env : Env) (a : Arrival) :
    Outcome (fun r => Tabled cfg r.1 ∧ r.1.queue = s.queue ∧
      (r.2 < s.queue.queues.length ∨ OwnClass cfg s a ∧ r.2 = matchDefaultQ cfg a.packet) ∧
      (cfg.fcMode = .floodgate → r.2 = matchDefaultQ cfg a.packet)) Asserts
      (s.matchQ cfg env a) := by
  have le := T.sized.queueNum_le
  have first : ∀ {i}, i < queueNum → i < s.queue.queues.length :=
    fun below => Nat.lt_of_lt_of_le below le
  unfold Port.matchQ
  dsimp only
  split
  · rename_i zero
    exact ⟨T, rfl, .inl (first (show 0 < queueNum by decide)), fun _ => zero.symm⟩
  · split
    · rename_i mode
      refine ⟨T, rfl, ?_, fun other => by simp [mode] at other⟩
      cases found : s.matchRoot a.roots with
      | none => exact .inr ⟨by simp [OwnClass, mode, found], rfl⟩
      | some ciq => exact .inl (matchRoot_lt T found)
    · rename_i mode
      have other : cfg.fcMode ≠ .floodgate := by simp [mode]
      have part : (if a.packet.schTag then 2 else 1) < s.queue.queues.length := by
        apply first
        cases a.packet.schTag <;> decide
      split
      · exact ⟨T, rfl, .inl part, fun here => absurd here other⟩
      · split
        · exact ⟨T, rfl, .inl part, fun here => absurd here other⟩
        · rename_i voqid found
          split
          · rfl
          · have at_voq := T.sized.dsts found
            refine outcome_bind (outcome_readAt (T.sized.bytesInQueue ▸ at_voq)) fun bytes _ => ?_
            refine ⟨T, rfl, .inl ?_, fun here => absurd here other⟩
            dsimp only
            split
            · exact at_voq
            · exact part
    · rename_i mode
      have other : cfg.fcMode ≠ .floodgate := by simp [mode]
      obtain ⟨T_a, at_a⟩ := assign_tabled T a.fid a.choice
      split
      · exact ⟨T_a, rfl, .inl at_a, fun here => absurd here other⟩
      · rename_i q found
        by_cases expired : a.choice.expired = true
        · rw [if_pos expired]
          exact ⟨T_a, rfl, .inl at_a, fun here => absurd here other⟩
        · rw [if_neg expired]
          exact ⟨T, rfl, .inl (T.qAssign found), fun here => absurd here other⟩
    · rename_i mode
      exact ⟨T, rfl, .inr ⟨by simp [OwnClass, mode], rfl⟩, fun _ => rfl⟩
    · rename_i mode
      exact ⟨T, rfl, .inr ⟨by simp [OwnClass, mode], rfl⟩, fun _ => rfl⟩
    · rename_i mode
      exact ⟨T, rfl, .inr ⟨by simp [OwnClass, mode], rfl⟩, fun _ => rfl⟩

theorem sendPfc_inside {qIndex : ℕ} (w : WellSized q) (pause : Bool)
    (inside : qIndex < q.queues.length) :
    Outcome (SameShape q) Asserts (sendPfc cfg q qIndex pause) := by
  unfold sendPfc
  refine outcome_bind (getNBytes_inside w inside) fun qLen _ => ?_
  exact enqueue_inside w fun _ => Nat.lt_of_lt_of_le (by decide) w.queueNum_le

theorem hierMove_inside {env : Env} {qIndex : ℕ} {roots : List Spot} (T : Tabled cfg s)
    (at_q : qIndex < s.queue.queues.length)
    (inside : ∀ p rest, s.queue.queues[qIndex]? = some (p :: rest) → env.paused qIndex = false →
      s.matchRoot roots = none → add32 (sub32 s.queue.bytesInQueueTotal p.size) p.size <
        s.queue.maxBytes →
      matchDefaultQ cfg p < s.queue.queues.length) :
    Outcome (Tabled cfg) Asserts (s.hierMove cfg env qIndex roots) := by
  unfold Port.hierMove
  refine outcome_bind (outcome_readAt at_q) fun packets read => ?_
  split
  · exact T
  · rename_i moves
    cases packets with
    | nil => simp at moves
    | cons p rest =>
      have running : env.paused qIndex = false := by simpa using moves
      obtain ⟨u, popped, same, maxBytes, total⟩ := pop_front T.sized read
      rw [popped]
      show Outcome _ _ (u.doEnqueue p _ >>= _)
      have bound : u.room p.size → (s.matchRoot roots).getD (matchDefaultQ cfg p) <
          u.queues.length := by
        intro room
        unfold BEgressQueue.room at room
        rw [total, maxBytes] at room
        rw [same.queues]
        cases found : s.matchRoot roots with
        | none => exact inside p rest read running found room
        | some ciq => exact matchRoot_lt T found
      refine outcome_bind (doEnqueue_inside (wellSized_same T.sized same) bound) ?_
      rintro (_ | v) next
      · rfl
      · exact tabled_same T (sameShape_trans same (next v rfl))

theorem hierQueue_lt {level prio i qIndex : ℕ} (w : WellSized s.queue)
    (h : s.hierQueue level prio i = some qIndex) : qIndex < s.queue.queues.length := by
  unfold Port.hierQueue at h
  split at h
  · obtain ⟨cls, at_prio, at_i⟩ := Option.bind_eq_some_iff.mp h
    exact w.members (List.mem_of_getElem? at_prio) (List.mem_of_getElem? at_i)
  · cases h

theorem arrive_inside {env : Env} {a : Arrival} (T : Tabled cfg s)
    (modes : a.verdict = .hold → cfg.fcMode = .floodgate) (inside : InRange cfg s (.arrive env a)) :
    Outcome (Tabled cfg) Asserts (s.arrive cfg env a) := by
  unfold Port.arrive
  refine outcome_bind (matchQ_inside T env a) ?_
  rintro ⟨u, qIndex⟩ ⟨T_u, queue, at_q, own⟩
  dsimp only at queue at_q own ⊢
  cases verdict : a.verdict with
  | drop => exact T_u
  | hold =>
    refine ⟨T_u.sized, T_u.qAssign, T_u.oportCiq, ?_⟩
    intro x member
    rcases List.mem_append.mp member with before | last
    · exact T_u.held x before
    · rw [List.mem_singleton.mp last]
      exact own (modes verdict)
  | pass =>
    refine outcome_map (outcome_weaken (enqueue_inside T_u.sized ?_) fun v same =>
      tabled_same T_u same)
    rw [queue]
    intro room
    rcases at_q with at_q | ⟨own_class, rfl⟩
    · exact at_q
    · exact inside verdict room own_class

theorem release_inside {k : ℕ} (T : Tabled cfg s) (inside : InRange cfg s (.release k)) :
    Outcome (Tabled cfg) Asserts (s.step cfg (.release k)) := by
  unfold Port.step
  dsimp only
  split
  · exact T
  · rename_i p qIndex found
    have own : qIndex = matchDefaultQ cfg p := T.held _ (List.mem_of_getElem? found)
    have bound : s.queue.room p.size → qIndex < s.queue.queues.length := by
      intro room
      rw [own]
      exact inside p qIndex found room
    refine outcome_map (outcome_weaken (enqueue_inside T.sized bound) fun v same => ?_)
    have T_v := tabled_same T same
    exact ⟨T_v.sized, T_v.qAssign, T_v.oportCiq, fun x member =>
      T.held x (List.mem_of_mem_eraseIdx member)⟩

theorem tabled_oportCiq {ciq : Option ℕ} (T : Tabled cfg s) (root : Spot)
    (at_q : ∀ i, ciq = some i → i < s.queue.queues.length) :
    Tabled cfg { s with oportCiq := Function.update s.oportCiq root ciq } := by
  refine ⟨T.sized, T.qAssign, ?_, T.held⟩
  intro r i found
  dsimp only at found
  rw [Function.update_apply] at found
  split at found
  · exact at_q i found
  · exact T.oportCiq found

theorem receiveCI_inside {root : Spot} {hop : ℕ} (T : Tabled cfg s) :
    Outcome (Tabled cfg) Asserts (s.step cfg (.receiveCI root hop)) := by
  unfold Port.step
  dsimp only
  split
  · split
    · rfl
    · refine outcome_map (outcome_weaken (registerNewQ_sized T.sized hop) ?_)
      rintro ⟨v, id⟩ ⟨grown, at_id, -⟩
      exact tabled_oportCiq (tabled_grown T grown) root fun i same => Option.some.inj same ▸ at_id
  · exact T

theorem checkRelease_inside {root : Spot} {quiet : Bool} (T : Tabled cfg s) :
    Outcome (Tabled cfg) Asserts (s.step cfg (.checkRelease root quiet)) := by
  unfold Port.step
  dsimp only
  split
  · exact T
  · rename_i ciq found
    split
    · rfl
    · refine outcome_map
        (outcome_weaken (getNBytes_inside T.sized (T.oportCiq found)) fun bytes _ => ?_)
      split
      · exact tabled_oportCiq T root fun i none => by cases none
      · exact T

/-- Every call keeps the invariant and makes no access outside a vector when its condition holds. -/
theorem step_inside (T : Tabled cfg s) {r : Request} (inside : InRange cfg s r) :
    Outcome (Tabled cfg) Asserts (s.step cfg r) := by
  have zero : 0 < s.queue.queues.length := Nat.lt_of_lt_of_le (by decide) T.sized.queueNum_le
  cases r with
  | arrive env a =>
    unfold Port.step
    dsimp only
    split
    · exact T
    · rename_i modes
      exact arrive_inside T (fun hold => not_not.mp (not_and.mp modes hold)) inside
  | frame p =>
    exact outcome_map (outcome_weaken (enqueue_inside T.sized fun _ => zero) fun v same =>
      tabled_same T same)
  | release k => exact release_inside T inside
  | dequeue env =>
    exact outcome_map (outcome_weaken (doDequeueRR_inside T.sized inside) fun v same =>
      tabled_same T same)
  | sendPfc cause pause =>
    unfold Port.step
    dsimp only
    split
    · exact T
    · rename_i qIndex called
      have bound := inside qIndex called
      exact outcome_map (outcome_weaken (sendPfc_inside T.sized pause bound) fun v same =>
        tabled_same T same)
  | receivePause dst =>
    unfold Port.step
    dsimp only
    split
    · exact outcome_map (outcome_weaken (registerVOQ_sized T.sized dst) fun v grown =>
        tabled_grown T grown)
    · exact T
  | receiveCI root hop => exact receiveCI_inside T
  | checkRelease root quiet => exact checkRelease_inside T
  | hierMove env level prio i roots =>
    unfold Port.step
    dsimp only
    by_cases mode : cfg.fcMode = .congestionIsolation
    · rw [if_pos mode]
      cases found : s.hierQueue level prio i with
      | none => exact T
      | some qIndex =>
        exact hierMove_inside T (hierQueue_lt T.sized found) fun p rest =>
          inside qIndex p rest mode found
    · rw [if_neg mode]
      exact T

/-! ### What a call does outside -/

theorem matchQ_outside (T : Tabled cfg s) {env : Env} {a : Arrival} (own : OwnClass cfg s a)
    (outside : s.queue.queues.length ≤ matchDefaultQ cfg a.packet) :
    s.matchQ cfg env a = .ok (s, matchDefaultQ cfg a.packet) := by
  have le := T.sized.queueNum_le
  have other : matchDefaultQ cfg a.packet ≠ 0 := by
    have positive : 0 < queueNum := by decide
    omega
  unfold Port.matchQ
  dsimp only
  rw [if_neg other]
  unfold OwnClass at own
  split
  · rename_i mode
    rw [mode] at own
    rw [show s.matchRoot a.roots = none from own]
    rfl
  · rename_i mode
    rw [mode] at own
    cases own
  · rename_i mode
    rw [mode] at own
    cases own
  · rfl
  · rfl
  · rfl

theorem hierMove_outside {env : Env} {qIndex : ℕ} {roots : List Spot} {p : Packet}
    {rest : List Packet} (T : Tabled cfg s) (front : s.queue.queues[qIndex]? = some (p :: rest))
    (running : env.paused qIndex = false)
    (unmatched : s.matchRoot roots = none)
    (room : add32 (sub32 s.queue.bytesInQueueTotal p.size) p.size < s.queue.maxBytes)
    (outside : s.queue.queues.length ≤ matchDefaultQ cfg p) :
    s.hierMove cfg env qIndex roots = .error (.outOfRange .queues) := by
  obtain ⟨u, popped, same, maxBytes, total⟩ := pop_front T.sized front
  have room_u : u.room p.size := by
    unfold BEgressQueue.room
    rwa [total, maxBytes]
  have failed := doEnqueue_outside room_u (same.queues ▸ outside)
  have read : readAt (Fault.outOfRange .queues) s.queue.queues qIndex = .ok (p :: rest) := by
    simp [readAt, front]
  unfold Port.hierMove
  rw [read]
  show (if p :: rest = [] ∨ env.paused qIndex = true then _ else _) = _
  rw [if_neg (by simp [running]), popped]
  show u.doEnqueue p ((s.matchRoot roots).getD _) >>= _ = _
  rw [unmatched]
  show u.doEnqueue p (matchDefaultQ cfg p) >>= _ = _
  rw [failed]
  rfl

theorem step_outside (T : Tabled cfg s) {r : Request} (outside : ¬ InRange cfg s r) :
    ∃ v, s.step cfg r = .error (.outOfRange v) := by
  cases r with
  | arrive env a =>
    simp only [InRange, Classical.not_imp, Nat.not_lt] at outside
    obtain ⟨verdict, room, own, outside⟩ := outside
    refine ⟨.queues, ?_⟩
    unfold Port.step
    dsimp only
    rw [if_neg (by simp [verdict])]
    unfold Port.arrive
    rw [matchQ_outside T own outside, verdict]
    show (s.queue.enqueue a.packet _).map _ = _
    rw [enqueue_outside room outside]
    rfl
  | frame p => exact absurd trivial outside
  | release k =>
    simp only [InRange, not_forall, Nat.not_lt] at outside
    obtain ⟨p, qIndex, found, room, outside⟩ := outside
    have own : qIndex = matchDefaultQ cfg p := T.held _ (List.mem_of_getElem? found)
    refine ⟨.queues, ?_⟩
    unfold Port.step
    dsimp only
    rw [found]
    dsimp only
    rw [own, enqueue_outside room outside]
    rfl
  | dequeue env =>
    simp only [InRange, Classical.not_imp] at outside
    obtain ⟨some_bytes, outside⟩ := outside
    refine ⟨.rrlasts, ?_⟩
    unfold Port.step
    dsimp only
    rw [doDequeueRR_outside T.sized some_bytes outside]
    rfl
  | sendPfc cause pause =>
    simp only [InRange, not_forall, Nat.not_lt] at outside
    obtain ⟨qIndex, called, outside⟩ := outside
    refine ⟨.bytesInQueue, ?_⟩
    unfold Port.step
    dsimp only
    rw [called]
    dsimp only
    unfold sendPfc
    rw [getNBytes_outside T.sized outside]
    rfl
  | receivePause dst => exact absurd trivial outside
  | receiveCI root hop => exact absurd trivial outside
  | checkRelease root quiet => exact absurd trivial outside
  | hierMove env level prio i roots =>
    simp only [InRange, not_forall, Nat.not_lt] at outside
    obtain ⟨qIndex, p, rest, mode, found, front, running, unmatched, room, outside⟩ := outside
    refine ⟨.queues, ?_⟩
    unfold Port.step
    dsimp only
    rw [if_pos mode, found]
    exact hierMove_outside T front running unmatched room outside

/-! ### Runs -/

theorem initial_tabled (layout : Layout) (maxBytes : ℕ) (pifo : Bool) (rateLimiterMode : ℕ) :
    Tabled cfg (Port.initial cfg layout maxBytes pifo rateLimiterMode) := by
  refine ⟨?_, nofun, nofun, nofun⟩
  have classes :
    ∀ level, (Port.initial cfg layout maxBytes pifo rateLimiterMode).queue.priorities level =
      if level = 0 then layout.priorities else [] := Function.update_apply _ 0 layout.priorities
  refine ⟨rfl, layout.pfcCtrls_length, layout.rateLimiters_length, rfl, rfl, ?_, ?_, ?_, ?_, nofun,
    Nat.le_refl _⟩
  · rw [classes 0]
    have at_zero : Function.update (fun _ => []) 0 (List.replicate layout.priorities.length 0) 0 =
        List.replicate layout.priorities.length 0 := Function.update_self ..
    exact (congrArg List.length at_zero).trans List.length_replicate
  · rw [classes 0]
    exact layout.classes
  · intro level registered
    rw [classes level]
    split
    · exact layout.classes
    · rename_i other
      have absent : Function.update (fun _ : ℕ => (none : Option (List ℕ))) 0
        (some (List.range queueNum)) level = none := Function.update_of_ne other ..
      exact absurd absent registered
  · intro level cls i member at_i
    rw [classes level] at member
    split at member
    · exact layout.members cls member i at_i
    · cases member

theorem reachable_tabled (h : Port.Reachable cfg s) : Tabled cfg s := by
  induction h with
  | initial layout maxBytes pifo rateLimiterMode =>
      exact initial_tabled layout maxBytes pifo rateLimiterMode
  | @step s t r before call T =>
    by_cases inside : InRange cfg s r
    · exact outcome_result (step_inside T inside) call
    · obtain ⟨v, failed⟩ := step_outside T inside
      rw [failed] at call
      cases call

/-- In every run, a call makes no access outside a vector exactly when its condition holds. -/
theorem indices_in_range (h : Port.Reachable cfg s) (r : Request) :
    (∀ v, s.step cfg r ≠ .error (.outOfRange v)) ↔ InRange cfg s r := by
  have T := reachable_tabled h
  constructor
  · intro never
    by_contra outside
    obtain ⟨v, failed⟩ := step_outside T outside
    exact never v failed
  · intro inside v failed
    cases outcome_stop (step_inside T inside) failed

/-- A port of the default configuration. -/
def defaultSettings (fcMode : FcMode) : Settings where
  fcMode := fcMode
  pfcFine := .pg
  pfcMode := .pg
  isLastHop := false
  ackHighPrio := false
  pauseTime := 5
  pfcSize := 64

def defaultPort (fcMode : FcMode) : Port :=
  .initial (defaultSettings fcMode) (.twoClasses true) 1048576000 false 1

def dataPacket (pg : ℕ) : Packet := ⟨.udp, pg, pg, 0, 1000, none, none, false, none⟩

def someTime : Env := ⟨0, fun _ => false, fun _ => none⟩

def dataArrival (pg : ℕ) : Arrival := ⟨dataPacket pg, 0, [], ⟨fun _ => false, 0, false⟩, .pass⟩

/-- A data packet waits in queue 3 of a port with three classes, and a PFC frame in queue 0: the
next call takes the frame, and stays inside. -/
theorem indices_in_range_frame : ∃ s, Port.Reachable (defaultSettings .pfc) s ∧
    s.queue.queues.map List.length = [1, 0, 0, 1, 0, 0, 0, 0] ∧
    InRange (defaultSettings .pfc) s (.dequeue someTime) ∧
    ∀ v, s.step (defaultSettings .pfc) (.dequeue someTime) ≠ .error (.outOfRange v) := by
  let cfg := defaultSettings .pfc
  let start : Port := .initial cfg (.threeClasses none true) 1048576000 false 1
  have ends : ((start.step cfg (.arrive someTime (dataArrival 3))).toOption.any fun t =>
      (t.step cfg (.sendPfc (.ingress 3 0) true)).toOption.any fun s =>
        decide (s.queue.queues.map List.length = [1, 0, 0, 1, 0, 0, 0, 0] ∧
          s.queue.priorities 0 = [[0], [1], [2, 3, 4, 5, 6, 7]] ∧
          (s.queue.sendable .pg someTime 0).toOption = some true)) = true := by decide +kernel
  obtain ⟨t, arrived, ends⟩ := (Option.any_eq_true ..).mp ends
  obtain ⟨s, paused, facts⟩ := (Option.any_eq_true ..).mp ends
  obtain ⟨lengths, classes, ready⟩ := of_decide_eq_true facts
  have reach : Port.Reachable cfg s :=
    ((Port.Reachable.initial ..).step (toOption_eq_some.mp arrived)).step
      (toOption_eq_some.mp paused)
  have inside : InRange cfg s (.dequeue someTime) := by
    intro _ front last shape idle
    have strict : front = [[0], [1]] := by
      rw [classes] at shape
      simpa using congrArg List.dropLast shape.symm
    have stopped := idle [0] (by simp [strict]) 0 List.mem_cons_self
    have taken : s.queue.sendable cfg.pfcFine someTime 0 = .ok true := toOption_eq_some.mp ready
    rw [taken] at stopped
    cases stopped
  exact ⟨s, reach, lengths, inside, (indices_in_range reach _).mpr inside⟩

/-- The first data packet that a port of the default configuration sends, a PFC frame for
destination 8 in `FC_VOQ_DSTPFC`, and one for an upstream QP in `FC_BFC`. -/
theorem indices_out_of_range :
    (∃ s, Port.Reachable (defaultSettings .pfc) s ∧
      s.step (defaultSettings .pfc) (.dequeue someTime) = .error (.outOfRange .rrlasts)) ∧
    (defaultPort .voqDstPfc).step (defaultSettings .voqDstPfc) (.sendPfc (.destination 8) true) =
      .error (.outOfRange .bytesInQueue) ∧
    (defaultPort .bfc).step (defaultSettings .bfc) (.sendPfc (.upstream 100) true) =
      .error (.outOfRange .bytesInQueue) := by
  have ends : ((defaultPort .pfc).step (defaultSettings .pfc)
      (.arrive someTime (dataArrival 3))).toOption.any (fun s =>
      match s.step (defaultSettings .pfc) (.dequeue someTime) with
      | .error f => decide (f = .outOfRange .rrlasts)
      | .ok _ => false) = true := by decide +kernel
  obtain ⟨s, arrived, failed⟩ := (Option.any_eq_true ..).mp ends
  have start : Port.Reachable (defaultSettings .pfc) (defaultPort .pfc) := .initial ..
  refine ⟨⟨s, start.step (toOption_eq_some.mp arrived), ?_⟩, rfl, rfl⟩
  split at failed
  · rename_i f stopped
    rw [stopped, of_decide_eq_true failed]
  · cases failed

end Egress

end Pyrrha

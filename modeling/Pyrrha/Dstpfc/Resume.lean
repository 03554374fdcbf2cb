import Pyrrha.Dstpfc.Node

/-!
Per-destination PFC always resumes: a destination stays paused only while a packet that the pause
mode looks at is buffered for it.
-/

namespace Pyrrha
open Lib

namespace Buffer

open Dstpfc

variable {n : ℕ} {cfg : Config n} {hostOf : Fin n → ℕ} {s t : State n}

/-- A packet for host `d` that has come in through a port, in a queue other than 0. -/
def bound (d : ℕ) (it : Item n) : Bool :=
  decide (it.q ≠ 0) && it.packet.inDev.isSome && decide ((it.packet.dst : ℕ) = d)

/-- The same, in a queue of `dev`. -/
def boundOn (dev : Fin n) (d : ℕ) (it : Item n) : Bool := bound d it && decide (it.dev = dev)

theorem bound_frame {d : ℕ} (it : Item n) (frame : it.IsFrame cfg) : bound d it = false := by
  simp [bound, frame.queue]

/-! ### Which steps are allowed -/

namespace NodeEvent

/-- A port of the last hop leads to one host. -/
def Routed (cfg : Config n) (hostOf : Fin n → ℕ) : NodeEvent n → Prop
  | .arrive p _ dev _ _ => cfg.isLastHop dev = true → p.dst = hostOf dev
  | _ => True

/-- A packet that is admitted is not refused by the queue of its port, and leaves fewer than 2^32
bytes for its destination. -/
def Fits (cfg : Config n) (node : Node n) : NodeEvent n → Prop
  | .arrive p inDev dev qIndex schTag => ∀ q, node.matchQ cfg dev qIndex schTag p.dst = some q →
    node.switch.admits cfg inDev dev q (p.arrived inDev) = .ok true →
      add32 ((node.switch.voqArrived cfg inDev dev q (p.arrived inDev)).bytesInQueueTotal dev)
        p.size < cfg.maxBytes ∧
        (q ≠ 0 → tally Item.size (bound p.dst) node.switch.held + p.size < 2 ^ 32)
  | _ => True

end NodeEvent

/-! ### Runs of the buffers -/

abbrev Steady (cfg : Config n) (s : State n) : Prop :=
  State.Reachable cfg (fun _ ev => ev.LinksStay) s

theorem grow_steady {before after : Devices n} (l : List (Fin n)) (reach : Steady cfg s) :
    Steady cfg (l.foldl (Node.grow before after) s) := by
  induction l generalizing s with
  | nil => exact reach
  | cons i rest ih =>
    refine ih ?_
    unfold Node.grow
    split
    · exact .step reach (show (Event.registerQ i : Event n).LinksStay from trivial) rfl
    · exact reach

theorem grow_same {before after : Devices n} (l : List (Fin n)) :
    (l.foldl (Node.grow before after) s).held = s.held ∧
    (l.foldl (Node.grow before after) s).paused = s.paused ∧
      (l.foldl (Node.grow before after) s).refused = s.refused := by
  induction l generalizing s with
  | nil => exact ⟨rfl, rfl, rfl⟩
  | cons i rest ih =>
    obtain ⟨held, paused, refused⟩ := @ih (Node.grow before after s i)
    have one : (Node.grow before after s i).held = s.held ∧
      (Node.grow before after s i).paused = s.paused ∧
        (Node.grow before after s i).refused = s.refused := by
      unfold Node.grow
      split <;> exact ⟨rfl, rfl, rfl⟩
    exact ⟨held.trans one.1, paused.trans one.2.1, refused.trans one.2.2⟩

/-! ### The counters -/

/-- What the counters of destinations say in a run without refusals. -/
structure Exact (s : State n) : Prop where
  all : ∀ d, s.bufferingBytes d = tally Item.size (bound d) s.held
  egress : ∀ e d, s.bufferingEgressBytes e d = tally Item.size (boundOn e d) s.held

theorem exact_steady (mode : cfg.fcMode = .voqDstPfc) (reach : Steady cfg s)
    (room : s.refused = false)
    (small : ∀ d, tally Item.size (bound d) s.held < 2 ^ 32) : Exact s := by
  have direct : cfg.fcMode ≠ .floodgate := by rw [mode]; nofun
  constructor
  · intro d
    have kept := (direct_kept (a := .dst d) direct (fun _ _ => .inr mode) reach).2 room
    have same : tally Item.size ((Account.dst d).test cfg) s.held =
        tally Item.size (bound d) s.held := by
      refine tally_congr fun it _ => ?_
      simp [Account.test, bound, mode, eq_comm]
    rw [← same]
    exact keeps_exact kept (by rw [same]; exact small d)
  · intro e d
    have kept := (direct_kept (a := .egressDst e d) direct (fun _ _ => .inr mode) reach).2 room
    have same : tally Item.size ((Account.egressDst e d).test cfg) s.held =
        tally Item.size (boundOn e d) s.held := by
      refine tally_congr fun it _ => ?_
      simp only [Account.test, boundOn, bound, mode]
      grind
    have less : tally Item.size (boundOn e d) s.held ≤ tally Item.size (bound d) s.held :=
      tally_mono fun it _ passes => (Bool.and_eq_true _ _ ▸ passes).1
    rw [← same]
    exact keeps_exact kept (by rw [same]; exact lt_of_le_of_lt less (small d))

theorem tally_pos {p : Item n → Bool} {l : List (Item n)} (pos : 0 < tally Item.size p l) :
    ∃ it ∈ l, p it = true := by
  by_contra none
  push Not at none
  rw [tally_zero fun it member => Bool.eq_false_of_not_eq_true (none it member)] at pos
  exact lt_irrefl 0 pos

/-! ### The invariant -/

/-- The queues the pause mode looks at hold packets of one destination each. -/
structure Assigned (cfg : Config n) (hostOf : Fin n → ℕ) (node : Node n) : Prop where
  lastHop : ∀ it ∈ node.switch.held, it.packet.inDev.isSome = true → it.q ≠ 0 →
    cfg.isLastHop it.dev = true → it.packet.dst = hostOf it.dev
  voq : ∀ it ∈ node.switch.held, it.packet.inDev.isSome = true → queueNum ≤ it.q →
    ∃ dev, node.devices it.dev = some dev ∧ dev.dstQMap it.packet.dst = some it.q

/-- Whoever is paused waits for a packet the pause mode looks at. -/
def Backed (cfg : Config n) (s : State n) : Prop :=
  ∀ i d, s.paused i d = true → ∃ it ∈ s.held, bound d it = true ∧ Looked cfg it.dev it.q

structure Good (cfg : Config n) (hostOf : Fin n → ℕ) (node : Node n) : Prop where
  steady : Steady cfg node.switch
  room : node.switch.refused = false
  small : ∀ d, tally Item.size (bound d) node.switch.held < 2 ^ 32
  assigned : Assigned cfg hostOf node
  backed : Backed cfg node.switch

/-! ### Arrivals -/

theorem switchSend_room {dev : Fin n} {q : ℕ} {p : Packet n}
    (room : add32 (s.bytesInQueueTotal dev) p.size < cfg.maxBytes) :
    (s.switchSend cfg dev q true p).held = s.held ++ [⟨dev, q, .queue, true, p⟩] ∧
      (s.switchSend cfg dev q true p).refused = s.refused ∧ (s.switchSend cfg dev q true p).paused =
        s.paused := by
  rw [State.switchSend, State.doEnqueue, if_pos room]
  exact ⟨rfl, rfl, rfl⟩

/-- What an admitted packet does that its queue takes. -/
structure Stores (cfg : Config n) (s t : State n) (it : Item n) : Prop where
  held : ∃ l, WithFrames cfg s.held l ∧ t.held = l ++ [it]
  refused : t.refused = s.refused
  paused : ∀ i d, t.paused i d = true →
    s.paused i d = true ∨ (d = it.packet.dst ∧ it.q ≠ 0 ∧ Looked cfg it.dev it.q)

theorem sendToDev_stores (mode : cfg.fcMode = .voqDstPfc) (free : ∀ q, cfg.controlled q = false)
    {inDev dev : Fin n} {q : ℕ}
    {p : Packet n} (room : s.admits cfg inDev dev q (p.arrived inDev) = .ok true →
      add32 ((s.voqArrived cfg inDev dev q (p.arrived inDev)).bytesInQueueTotal dev) p.size <
        cfg.maxBytes)
    (call : s.sendToDev cfg inDev dev q p ⟨.pass, false⟩ = .ok t) : t = s ∨
      (s.admits cfg inDev dev q (p.arrived inDev) = .ok true ∧
        Stores cfg s t ⟨dev, q, .queue, true, p.arrived inDev⟩) := by
  rcases sendToDev_voq mode free call with same | ⟨admitted, rfl⟩
  · exact .inl same
  · obtain ⟨frames, refused⟩ := @voqArrived_frames n cfg s mode inDev dev q (p.arrived inDev)
    obtain ⟨held, kept, paused⟩ := @switchSend_room n cfg _ dev q (p.arrived inDev) (room admitted)
    refine .inr ⟨admitted, ⟨_, frames, held⟩, kept.trans refused, fun i d flag => ?_⟩
    rw [paused] at flag
    exact voqArrived_paused flag

theorem mem_stores {it x : Item n} (stores : Stores cfg s t it) (member : x ∈ t.held) : x ∈ s.held ∨
    x.IsFrame cfg ∨ x = it := by
  obtain ⟨l, ⟨frames, rfl, areFrames⟩, held⟩ := stores.held
  rw [held, List.mem_append, List.mem_append, List.mem_singleton] at member
  rcases member with (old | frame) | new
  · exact .inl old
  · exact .inr (.inl (areFrames x frame))
  · exact .inr (.inr new)

theorem stores_mem {it : Item n} (stores : Stores cfg s t it) : it ∈ t.held ∧
    ∀ x ∈ s.held, x ∈ t.held := by
  obtain ⟨l, ⟨frames, rfl, -⟩, held⟩ := stores.held
  rw [held]
  exact ⟨by simp, fun x old => by simp [old]⟩

theorem stores_tally {it : Item n} (stores : Stores cfg s t it) (d : ℕ) :
    tally Item.size (bound d) t.held = tally Item.size (bound d) s.held + if bound d it then it.size
      else 0 := by
  obtain ⟨l, same, held⟩ := stores.held
  rw [held, tally_concat, tally_withFrames same bound_frame]

theorem good_arrive (mode : cfg.fcMode = .voqDstPfc) (free : ∀ q, cfg.controlled q = false)
    {node after : Node n}
    (good : Good cfg hostOf node) {p : Packet n} {inDev dev : Fin n} {qIndex : ℕ} {schTag : Bool}
    (routed : (NodeEvent.arrive p inDev dev qIndex schTag).Routed cfg hostOf)
    (fits : (NodeEvent.arrive p inDev dev qIndex schTag).Fits cfg node)
    (call : node.arrive cfg p inDev dev qIndex schTag = some after) : Good cfg hostOf after := by
  unfold Node.arrive at call
  split at call
  · cases call
    exact good
  · obtain ⟨q, matched, call⟩ := Option.bind_eq_some_iff.mp call
    obtain ⟨t, sent, call⟩ := Option.bind_eq_some_iff.mp call
    cases call
    have sent := toOption_eq_some.mp sent
    have steady : Steady cfg t :=
      .step good.steady (show (Event.arrive p inDev dev q ⟨.pass, false⟩).LinksStay from trivial)
        sent
    rcases sendToDev_stores mode free (fun admitted => (fits q matched admitted).1) sent with
      rfl | ⟨admitted, stores⟩
    · exact good
    · refine ⟨steady, stores.refused.trans good.room, fun d => ?_, ⟨?_, ?_⟩, ?_⟩
      · have before := good.small d
        rw [stores_tally stores]
        split
        · rename_i own
          simp only [bound, Bool.and_eq_true, decide_eq_true_eq] at own
          obtain ⟨⟨nonzero, -⟩, rfl⟩ := own
          exact (fits q matched admitted).2 nonzero
        · exact before
      · intro x member arrived nonzero last
        rcases mem_stores stores member with old | frame | rfl
        · exact good.assigned.lastHop x old arrived nonzero last
        · exact absurd frame.queue nonzero
        · exact routed last
      · intro x member arrived voq
        rcases mem_stores stores member with old | frame | rfl
        · exact good.assigned.voq x old arrived voq
        · rw [frame.queue] at voq
          exact absurd voq (by decide)
        · rcases node_matchQ_cases matched with first | found
          · exact absurd voq (not_le.mpr first)
          · exact found
      · intro i d flag
        obtain ⟨own, kept⟩ := stores_mem stores
        rcases stores.paused i d flag with old | ⟨rfl, nonzero, looked⟩
        · obtain ⟨w, member, waits, looked⟩ := good.backed i d old
          exact ⟨w, kept w member, waits, looked⟩
        · exact ⟨_, own, by simp [bound, nonzero, Packet.arrived], looked⟩

/-! ### Transmissions -/

/-- What is left of the buffer a pause was raised on is packets of its destination. -/
theorem metric_item (mode : cfg.fcMode = .voqDstPfc) (steady : Steady cfg s)
    (room : s.refused = false)
    (small : ∀ d, tally Item.size (bound d) s.held < 2 ^ 32) {e : Fin n} {q d m : ℕ}
    (nonzero : q ≠ 0) (own : Looked cfg e q → cfg.voqPauseMode = .egressVqlen →
      ∀ x ∈ s.held, x.packet.inDev.isSome = true → x.dev = e → x.q = q → (x.packet.dst : ℕ) = d)
    (metric : s.voqMetric cfg e q d = some m) (pos : 0 < m) : ∃ x ∈ s.held, bound d x = true ∧
    Looked cfg x.dev x.q := by
  have direct : cfg.fcMode ≠ .floodgate := by rw [mode]; nofun
  have counted := exact_steady mode steady room small
  unfold State.voqMetric at metric
  split at metric
  · rename_i pauseMode
    split at metric
    · rename_i inside
      have looked : Looked cfg e q := fun _ => inside
      cases metric
      rw [(direct_exact direct steady room).egress] at pos
      obtain ⟨x, member, data⟩ := tally_pos pos
      simp only [Item.data, Item.queued, Bool.and_eq_true, decide_eq_true_eq] at data
      obtain ⟨⟨⟨⟨-, here⟩, queue⟩, -⟩, -⟩ := data
      rcases (direct_sound direct steady).items x member with frame | stored
      · exact absurd (queue.symm.trans frame.queue) nonzero
      · refine ⟨x, member, ?_, by rw [here, queue]; exact looked⟩
        simp [bound, stored.inDev, queue, nonzero,
          own looked pauseMode x member stored.inDev here queue]
    · cases metric
  · rename_i pauseMode
    cases metric
    rw [counted.all] at pos
    obtain ⟨x, member, waits⟩ := tally_pos pos
    exact ⟨x, member, waits, fun other => by rw [pauseMode] at other; cases other⟩
  · rename_i pauseMode
    cases metric
    rw [counted.egress] at pos
    obtain ⟨x, member, waits⟩ := tally_pos pos
    exact ⟨x, member, (Bool.and_eq_true _ _ ▸ waits).1, fun other => by rw [pauseMode] at other; cases other⟩

theorem assigned_same {node : Node n} (assigned : Assigned cfg hostOf node)
    (pauseMode : cfg.voqPauseMode = .egressVqlen)
    {x y : Item n} (looked : Looked cfg y.dev y.q) (nonzero : y.q ≠ 0) (memX : x ∈ node.switch.held)
    (memY : y ∈ node.switch.held) (arrivedX : x.packet.inDev.isSome = true)
    (arrivedY : y.packet.inDev.isSome = true)
    (here : x.dev = y.dev) (queue : x.q = y.q) : (x.packet.dst : ℕ) = y.packet.dst := by
  rcases looked pauseMode with last | voq
  · rw [assigned.lastHop x memX arrivedX (queue ▸ nonzero) (here ▸ last),
      assigned.lastHop y memY arrivedY nonzero last, here]
  · obtain ⟨dev, found, registered⟩ := assigned.voq x memX arrivedX (queue ▸ voq)
    obtain ⟨dev', found', registered'⟩ := assigned.voq y memY arrivedY voq
    rw [here, found'] at found
    cases found
    rw [queue] at registered
    exact dev.injective registered registered'

theorem good_transmit (mode : cfg.fcMode = .voqDstPfc) (free : ∀ q, cfg.controlled q = false)
    {node : Node n} (good : Good cfg hostOf node) {k : ℕ} {it : Item n} {flowId : Option (Fin n)}
    (call : node.switch.dequeueAndTransmit cfg k it flowId = .ok t) :
    Good cfg hostOf { node with switch := t } := by
  have direct : cfg.fcMode ≠ .floodgate := by rw [mode]; nofun
  have sound := direct_sound direct good.steady
  have steady : Steady cfg t :=
    .step good.steady (show (Event.transmit k it flowId).LinksStay from trivial) call
  rcases held_transmit sound call with rfl | ⟨front, frames⟩
  · exact good
  · have found := (isFront_queue front).found
    have mem : ∀ x ∈ t.held, x ∈ node.switch.held ∨ x.IsFrame cfg := by
      obtain ⟨l, held, areFrames⟩ := frames
      intro x member
      rw [held, List.mem_append] at member
      exact member.imp List.mem_of_mem_eraseIdx (areFrames x)
    have room : t.refused = false := (transmit_refused sound call).trans good.room
    have small : ∀ d, tally Item.size (bound d) t.held < 2 ^ 32 := by
      intro d
      have before := good.small d
      have removed := tally_eraseIdx (w := Item.size) (p := bound d) found
      rw [tally_withFrames frames bound_frame]
      omega
    refine ⟨steady, room, small, ⟨?_, ?_⟩, ?_⟩
    · intro x member arrived nonzero last
      rcases mem x member with old | frame
      · exact good.assigned.lastHop x old arrived nonzero last
      · exact absurd frame.queue nonzero
    · intro x member arrived voq
      rcases mem x member with old | frame
      · exact good.assigned.voq x old arrived voq
      · rw [frame.queue] at voq
        exact absurd voq (by decide)
    · intro i d flag
      obtain ⟨w, member, waits, looked⟩ := good.backed i d (transmit_paused mode free call flag)
      by_cases same : w = it
      · -- the packet that leaves is the one the pause was waiting for
        subst same
        simp only [bound, Bool.and_eq_true, decide_eq_true_eq] at waits
        obtain ⟨⟨nonzero, arrived⟩, rfl⟩ := waits
        by_cases still : t = node.switch
        · rw [still]
          exact ⟨w, member, by simp [bound, nonzero, arrived], looked⟩
        · have stored := front_stored sound (isFront_queue front) arrived
          obtain ⟨m, metric, pos⟩ :=
            transmit_left mode free call still stored.notSkipped nonzero looked flag
          refine metric_item mode steady room small nonzero
            (fun look pauseMode x inHeld arrivedX here queue => ?_) metric pos
          rcases mem x inHeld with old | frame
          · exact assigned_same good.assigned pauseMode look nonzero old member arrivedX
              arrived here queue
          · rw [frame.inDev] at arrivedX
            cases arrivedX
      · refine ⟨w, ?_, waits, looked⟩
        obtain ⟨l, held, -⟩ := frames
        rw [held, List.mem_append, List.mem_eraseIdx_iff_getElem?]
        obtain ⟨j, at_j⟩ := List.mem_iff_getElem?.mp member
        refine .inl ⟨j, fun e => same ?_, at_j⟩
        rw [e, found] at at_j
        exact (Option.some.inj at_j).symm

/-! ### Runs -/

theorem good_receivePfc {all : Bool} {node after : Node n} (good : Good cfg hostOf node)
    {f : Frame n} (call : node.receivePfc all f = some after) : Good cfg hostOf after := by
  obtain ⟨devices, received, call⟩ := Option.bind_eq_some_iff.mp call
  cases call
  have keeps := switchReceivePFC_extends (toOption_eq_some.mp received)
  obtain ⟨held, paused, refused⟩ := @grow_same n node.switch node.devices devices (List.finRange n)
  refine ⟨grow_steady _ good.steady, refused.trans good.room, fun d => ?_, ⟨?_, ?_⟩, ?_⟩
  · rw [held]
    exact good.small d
  · dsimp only
    rw [held]
    exact good.assigned.lastHop
  · dsimp only
    rw [held]
    intro x member arrived voq
    obtain ⟨dev, found, registered⟩ := good.assigned.voq x member arrived voq
    obtain ⟨dev', found', old⟩ := keeps x.dev dev found
    exact ⟨dev', found', old _ _ registered⟩
  · unfold Backed
    rw [held, paused]
    exact good.backed

theorem good_reachable (mode : cfg.fcMode = .voqDstPfc) (free : ∀ q, cfg.controlled q = false)
    {all : Bool} {node : Node n}
    (reach : Node.Reachable cfg all (fun s ev => ev.Routed cfg hostOf ∧ ev.Fits cfg s) node) :
    Good cfg hostOf node := by
  induction reach with
  | initial devices count =>
    exact ⟨.initial, rfl, fun _ => Nat.two_pow_pos 32, ⟨nofun, nofun⟩, nofun⟩
  | @step node after ev _ allowed call good =>
    cases ev with
    | arrive p inDev dev qIndex schTag => exact good_arrive mode free good allowed.1 allowed.2 call
    | transmit k it flowId =>
      obtain ⟨t, left, call⟩ := Option.bind_eq_some_iff.mp call
      cases call
      exact good_transmit mode free good (toOption_eq_some.mp left)
    | receivePfc f => exact good_receivePfc good call

/-! ### Main result -/

/-- Queue `q` of `e` is the queue of host `d` there: of a last hop, or the VOQ registered for it. -/
def Serves (cfg : Config n) (hostOf : Fin n → ℕ) (node : Node n) (e : Fin n) (q d : ℕ) : Prop :=
  (cfg.isLastHop e = true ∧ q ≠ 0 ∧ hostOf e = d) ∨
    ∃ dev, node.devices e = some dev ∧ dev.dstQMap d = some q

/-- The quantity a pause of `d` was raised on is positive. -/
def Raised (cfg : Config n) (hostOf : Fin n → ℕ) (node : Node n) (d : ℕ) : Prop :=
  match cfg.voqPauseMode with
  | .egressVqlen => ∃ e q, Serves cfg hostOf node e q d ∧ 0 < node.switch.egressBytes e q
  | .buffer => 0 < node.switch.bufferingBytes d
  | .egressBuffer => ∃ e, 0 < node.switch.bufferingEgressBytes e d

theorem raised_backed (mode : cfg.fcMode = .voqDstPfc) {node : Node n} (good : Good cfg hostOf node)
    {d : ℕ} {it : Item n}
    (member : it ∈ node.switch.held) (waits : bound d it = true) (looked : Looked cfg it.dev it.q) :
    Raised cfg hostOf node d := by
  have direct : cfg.fcMode ≠ .floodgate := by rw [mode]; nofun
  have counted := exact_steady mode good.steady good.room good.small
  have size := size_pos it
  unfold Raised
  split
  · rename_i pauseMode
    simp only [bound, Bool.and_eq_true, decide_eq_true_eq] at waits
    obtain ⟨⟨nonzero, arrived⟩, rfl⟩ := waits
    refine ⟨it.dev, it.q, ?_, ?_⟩
    · rcases looked pauseMode with last | voq
      · exact .inl ⟨last, nonzero, (good.assigned.lastHop it member arrived nonzero last).symm⟩
      · exact .inr (good.assigned.voq it member arrived voq)
    · have fits := egress_fits (direct_sound direct good.steady) direct
        (direct_exact direct good.steady good.room) member
      exact lt_of_lt_of_le size (fits.egress arrived)
  · rw [counted.all]
    exact lt_of_lt_of_le size (le_tally member waits)
  · refine ⟨it.dev, ?_⟩
    rw [counted.egress]
    exact lt_of_lt_of_le size (le_tally member (by simp [boundOn, waits]))

/-- `FC_VOQ_DSTPFC` without PFC-controlled queues: the counters of destinations are exact, every
pause has the buffer it was raised on behind it, and none is left without packets; in runs in which
no queue refuses a packet. -/
theorem voq_pause_resumes (mode : cfg.fcMode = .voqDstPfc) (free : ∀ q, cfg.controlled q = false)
    {all : Bool} {node : Node n}
    (reach : Node.Reachable cfg all (fun s ev => ev.Routed cfg hostOf ∧ ev.Fits cfg s) node) :
    (∀ d, node.switch.bufferingBytes d = tally Item.size (bound d) node.switch.held) ∧
      (∀ e d, node.switch.bufferingEgressBytes e d =
        tally Item.size (boundOn e d) node.switch.held) ∧
      (∀ i d, node.switch.paused i d = true → Raised cfg hostOf node d) ∧
      ∀ d, (∀ it ∈ node.switch.held, bound d it = false) → ∀ i, node.switch.paused i d = false := by
  have good := good_reachable mode free reach
  have counted := exact_steady mode good.steady good.room good.small
  refine ⟨counted.all, counted.egress, fun i d flag => ?_, fun d gone i => ?_⟩
  · obtain ⟨it, member, waits, looked⟩ := good.backed i d flag
    exact raised_backed mode good member waits looked
  · by_contra flag
    obtain ⟨it, member, waits, -⟩ := good.backed i d (Bool.of_not_eq_false flag)
    rw [gone it member] at waits
    cases waits

/-- VOQ_DSTPFC with `room` bytes for each port; every byte outside queue 0 pauses. -/
def dstConfig (room : Fin 100001) : Config 3 :=
  { smallConfig .voqDstPfc with maxBytes := room, maxBytes_le := room_le room }

def emptyNode : Node 3 := ⟨{}, twoPorts⟩

/-- A data packet of `size + 1` bytes for host 7, from port 1 to port 2. -/
def dataEvent (size : Fin 10000) : NodeEvent 3 := .arrive (smallPacket .udp size) 1 2 1 false

theorem data_routed (room : Fin 100001) (size : Fin 10000) :
    (dataEvent size).Routed (dstConfig room) fun _ => 0 := by
  intro last
  cases last

theorem dst_free (room : Fin 100001) (q : ℕ) : (dstConfig room).controlled q = false :=
  Bool.and_false _

/-- One packet that has paused port 1. -/
theorem voq_pause_resumes_paused : ∃ node : Node 3, node.switch.paused 1 7 = true ∧
    Raised (dstConfig 100000) (fun _ => 0) node 7 := by
  have ends : ((emptyNode.step (dstConfig 100000) true (dataEvent 999)).any fun node =>
      node.switch.paused 1 7) = true := by
    decide +kernel
  obtain ⟨node, call, flag⟩ := (Option.any_eq_true ..).mp ends
  have fits : (dataEvent 999).Fits (dstConfig 100000) emptyNode := by
    intro q matched _
    cases matched
    exact ⟨by decide +kernel, fun _ => by decide +kernel⟩
  have reach : Node.Reachable (dstConfig 100000) true
      (fun s ev => ev.Routed (dstConfig 100000) (fun _ => 0) ∧ ev.Fits (dstConfig 100000) s) node :=
    .step (.initial twoPorts (by decide)) ⟨data_routed 100000 999, fits⟩ call
  exact ⟨node, flag, (voq_pause_resumes rfl (dst_free 100000) reach).2.2.1 1 7 flag⟩

/-- The packet `dataEvent 59` has brought leaves. -/
def leaveEvent : NodeEvent 3 :=
  .transmit 1 ⟨2, 1, .queue, true, (smallPacket .udp 59).arrived 1⟩ none

/-- The first packet leaves after the queue of its port has refused the second one. -/
def refusedRun : Option (Node 3) := do
  let node ← emptyNode.step (dstConfig 100) true (dataEvent 59)
  let node ← node.step (dstConfig 100) true (dataEvent 49)
  node.step (dstConfig 100) true leaveEvent

/-- The counters keep the packet that was refused, and port 1 stays paused. -/
theorem voq_pause_stuck : ∃ node : Node 3, (dstConfig 100).fcMode = .voqDstPfc ∧
    (∀ q, (dstConfig 100).controlled q = false) ∧
    Node.Reachable (dstConfig 100) true (fun _ ev => ev.Routed (dstConfig 100) fun _ => 0) node ∧
    node.switch.bufferingBytes 7 = 50 ∧ (∀ it ∈ node.switch.held, bound 7 it = false) ∧
    node.switch.paused 1 7 = true := by
  have ends : (refusedRun.any fun node => decide (node.switch.bufferingBytes 7 = 50 ∧
      (∀ it ∈ node.switch.held, bound 7 it = false) ∧ node.switch.paused 1 7 = true)) = true := by
        decide +kernel
  obtain ⟨node, ran, facts⟩ := (Option.any_eq_true ..).mp ends
  unfold refusedRun at ran
  obtain ⟨first, one, ran⟩ := Option.bind_eq_some_iff.mp ran
  obtain ⟨second, two, three⟩ := Option.bind_eq_some_iff.mp ran
  have start : Node.Reachable (dstConfig 100) true (fun _ ev => ev.Routed (dstConfig 100) fun _ =>
      0) emptyNode :=
    .initial twoPorts (by decide)
  have reach := (start.step (data_routed 100 59) one).step (data_routed 100 49) two
  have leaves : leaveEvent.Routed (dstConfig 100) fun _ => 0 := trivial
  exact ⟨node, rfl, dst_free 100, reach.step leaves three, of_decide_eq_true facts⟩

end Buffer

end Pyrrha

import Pyrrha.Switch.Control

/-!
Runs of a switch. An event is one call the simulator makes; a state is reachable if a sequence of
events leads to it and no assert fires on the way. `step_induct` reduces an invariant of runs to the
five operations every event is made of.
-/

namespace Pyrrha
open Lib Relation

variable {n : ℕ} {cfg : Config n}

inductive Event (n : ℕ) where
  | sendToDev (idx : Fin n) (p : Packet n) (pick : Option (ℕ × ℕ))
  | doHierQRR (picks : Fin n → Option (ℕ × ℕ))
  | receiveCI (tag : CITag) (ingress : Fin n) (pick : Option (ℕ × ℕ))
  | dequeueAndTransmit (dev : Fin n) (pick : Option (ℕ × ℕ))
  /-- A PFC or CI frame this switch has built goes into queue 0 of `dev`. -/
  | sendFrame (dev : Fin n) (p : Packet n) (pick : Option (ℕ × ℕ))

def Packet.isFrame (p : Packet n) : Bool := p.header.l3Prot == .pfc || p.header.l3Prot == .ci

namespace Switch

def step (cfg : Config n) (s : Switch n) : Event n → Checked (Switch n)
  | .sendToDev idx p pick => s.sendToDev cfg idx p pick
  | .doHierQRR picks => s.doHierQRR cfg picks
  | .receiveCI tag ingress pick => s.receiveCI cfg tag ingress pick
  | .dequeueAndTransmit dev pick => s.dequeueAndTransmit cfg dev pick
  | .sendFrame dev p pick =>
    if p.isFrame then (s.switchSend cfg dev 0 p).dequeueAndTransmit cfg dev pick else .ok s

/-- The states of the runs all of whose steps, from `s` to `t` by an event, satisfy `allowed`. -/
inductive Reachable (cfg : Config n) (allowed : Switch n → Event n → Switch n → Prop) :
    Switch n → Prop where
  | initial : Reachable cfg allowed {}
  | step {s t : Switch n} {ev : Event n} : Reachable cfg allowed s → s.step cfg ev = .ok t →
      allowed s ev t → Reachable cfg allowed t

/-- Runs without any condition on their steps. -/
abbrev Reaches (cfg : Config n) (s : Switch n) : Prop := Reachable cfg (fun _ _ _ => True) s

def run (cfg : Config n) (s : Switch n) (evs : List (Event n)) : Checked (Switch n) :=
  evs.foldlM (step cfg) s

theorem reaches_run {evs : List (Event n)} {s : Switch n} (h : run cfg {} evs = .ok s) :
    Reaches cfg s :=
  foldlM_preserves (fun _ _ _ _ before call => .step before call trivial) .initial h

/-- A switch with `n` devices and low thresholds, for runs on given inputs. -/
def smallConfig (n : ℕ) : Config n where
  mId := 1
  isToR := false
  upPort _ := false
  nearestMatch := false
  congestionMerge := true
  deallocOn := true
  onlyDownPortEnable := false
  ackHighPrio := false
  pifo := false
  checkSharedBuffer := false
  bufferSize := 0
  maxQlen _ := 2 ^ 20
  maxBytes := 2 ^ 20
  maxBytes_le := by decide
  thCongestion _ _ := 100
  thResume _ _ := 50
  thHol := 0

/-- The same switch with ports that take 100 bytes only. -/
def tightConfig : Config 2 := { smallConfig 2 with maxBytes := 100, maxBytes_le := by decide }

theorem one_lt_queueNum : 1 < queueNum := by decide

theorem small_size_pos : 0 < 64 := by decide

theorem small_size_lt : 64 < 2 ^ 31 := by decide

/-- A data packet of 64 bytes for queue 1, at the first hop of its route. -/
def dataPacket (uid : ℕ) (inDev : Fin n) (routing : List Spot) : Packet n where
  uid := uid
  header := ⟨.udp, ⟨1, one_lt_queueNum⟩, ⟨1, one_lt_queueNum⟩⟩
  inDev := inDev
  routingTag := ⟨0, routing⟩
  size := 64
  size_pos := small_size_pos
  size_lt := small_size_lt

/-- A PFC frame of 64 bytes this switch has built. -/
def pfcFrame : Packet 2 :=
  { dataPacket 0 0 [] with header := ⟨.pfc, ⟨0, by decide⟩, ⟨0, by decide⟩⟩ }

theorem run_ends (cfg : Config n) (evs : List (Event n)) (P : Switch n → Bool)
    (h : (match run cfg {} evs with | .ok s => P s | .error _ => false) = true) :
    ∃ s, run cfg {} evs = .ok s ∧ P s = true := by
  split at h
  · rename_i s ends
    exact ⟨s, ends, h⟩
  · cases h

/-- The port 0 is told to pause for the root `⟨7, 0⟩`, and a packet that is to cross this root
arrives from device 1. -/
def pausedRun : List (Event 2) :=
  [.receiveCI ⟨.pause, ⟨7, 0⟩, 1, ⟨0, 0⟩⟩ 0 none,
    .sendToDev 0 (dataPacket 0 1 [⟨1, 0⟩, ⟨7, 0⟩]) none]

/-! ### What an operation can do -/

theorem acceptPacket_cases {s t : Switch n} {idx : Fin n} {p : Packet n}
    (h : s.acceptPacket cfg idx p = .ok t) :
    t = s ∨ ∃ q u, s.matchQ cfg idx p = .ok q ∧ s.admits cfg idx q p ∧
    p.header.l3Prot ≠ .switchAck ∧
      (s.updateEgressAdmission idx q p.size).notifyEnqueue cfg idx q p = .ok u ∧
      t = u.switchSend cfg idx q p := by
  unfold acceptPacket at h
  obtain ⟨q, matched, h⟩ := bind_ok h
  split at h
  · rename_i admitted
    split at h
    · cases h
    · rename_i header
      obtain ⟨u, notified, h⟩ := bind_ok h
      cases h
      exact .inr ⟨q, u, matched, admitted, header, notified, rfl⟩
  · cases h
    exact .inl rfl

theorem dequeueAndTransmit_cases {s t : Switch n} {dev : Fin n} {pick : Option (ℕ × ℕ)}
    (h : s.dequeueAndTransmit cfg dev pick = .ok t) :
    t = s ∨ ∃ q k p, q < queueNum ∧ (cfg.pifo = false → k = 0) ∧ (s.queues dev q)[k]? = some p ∧
      ((s.popQueue dev q k p).transmitStart dev q p).switchNotifyDequeue cfg dev q p = .ok t := by
  unfold dequeueAndTransmit at h
  split at h
  · cases h
    exact .inl rfl
  rename_i q k
  split at h
  · cases h
    exact .inl rfl
  rename_i pickable
  rw [not_or] at pickable
  split at h
  · cases h
    exact .inl rfl
  rename_i p found
  refine .inr ⟨q, k, p, by omega, fun fifo => ?_, found, h⟩
  by_contra other
  exact pickable.2 ⟨fifo, other⟩

theorem switchNotifyDequeue_cases {s t : Switch n} {dev : Fin n} {q : ℕ} {p : Packet n}
    (h : s.switchNotifyDequeue cfg dev q p = .ok t) :
    ((p.isFrame ∨ p.header.l3Prot = .switchAck) ∧ t = s) ∨
    (¬p.isFrame ∧ p.header.l3Prot ≠ .switchAck ∧
      ∃ u, s.removeFromEgressAdmission dev q p.size = .ok u ∧
      u.notifyDequeue cfg dev q p = .ok t) := by
  unfold switchNotifyDequeue at h
  split at h
  · rename_i type
    cases h
    exact .inl ⟨.inl (by simp [Packet.isFrame, type]), rfl⟩
  · rename_i type
    cases h
    exact .inl ⟨.inl (by simp [Packet.isFrame, type]), rfl⟩
  · rename_i type
    cases h
    exact .inl ⟨.inr type, rfl⟩
  · rename_i notPfc notCi notAck
    obtain ⟨u, removed, h⟩ := bind_ok h
    have data : ¬p.isFrame := by
      simpa [Packet.isFrame] using ⟨notPfc, notCi⟩
    exact .inr ⟨data, notAck, u, removed, h⟩

theorem removeFromEgressAdmission_ok {s t : Switch n} {dev : Fin n} {q size : ℕ}
    (h : s.removeFromEgressAdmission dev q size = .ok t) : size ≤ s.egressBytes dev q ∧
      t = s.setEgress dev q (s.egressBytes dev q - size) := by
  unfold removeFromEgressAdmission at h
  split at h
  · rename_i enough
    cases h
    exact ⟨enough, rfl⟩
  · cases h

theorem doEnqueue_some {s t : Switch n} {dev : Fin n} {p : Packet n} {q : ℕ}
    (h : s.doEnqueue cfg dev p q = some t) : t = s.pushQueue dev p q := by
  unfold doEnqueue at h
  split at h
  · exact (Option.some.inj h).symm
  · cases h

theorem switchSend_cases (cfg : Config n) (s : Switch n) (dev : Fin n) (q : ℕ) (p : Packet n) :
    s.switchSend cfg dev q p = s ∨ s.switchSend cfg dev q p = s.pushQueue dev p q := by
  unfold switchSend doEnqueue
  split
  · exact .inr rfl
  · exact .inl rfl

/-- One move of the round: the head of `q` leaves, then enters the queue it matched beforehand. -/
theorem hierMove_cases {s t : Switch n} {dev : Fin n} {level q : ℕ} {b b' : Bool}
    (h : hierMove cfg dev level (s, b) q = .ok (t, b')) :
    t = s ∨ ∃ p rest nextQ u v w, s.queues dev q = p :: rest ∧
      s.checkDequeueHierQ cfg dev level q p = .ok (some (some nextQ)) ∧
      (s.popQueue dev q 0 p).notifyDequeue cfg dev q p = .ok u ∧
      u.removeFromEgressAdmission dev q p.size = .ok v ∧
      (v.pushQueue dev p nextQ).notifyEnqueue cfg dev nextQ p = .ok w ∧
      t = w.updateEgressAdmission dev nextQ p.size := by
  simp only [hierMove] at h
  split at h
  · cases h
    exact .inl rfl
  rename_i p rest head
  obtain ⟨next, check, h⟩ := bind_ok h
  split at h
  · cases h
    exact .inl rfl
  · cases h
  rename_i nextQ
  obtain ⟨u, left, h⟩ := bind_ok h
  obtain ⟨v, removed, h⟩ := bind_ok h
  split at h
  · cases h
  rename_i pushed entered
  obtain ⟨w, notified, h⟩ := bind_ok h
  cases h
  rw [doEnqueue_some entered] at notified
  exact .inr ⟨p, rest, nextQ, u, v, w, head, check, left, removed, notified, rfl⟩

theorem acceptPacket_enters {s t : Switch n} {idx : Fin n} {p : Packet n} {q : ℕ}
    (matched : s.matchQ cfg idx p = .ok q)
    (admitted : s.admits cfg idx q p = true) (call : s.acceptPacket cfg idx p = .ok t) : ∃ u,
    (s.updateEgressAdmission idx q p.size).notifyEnqueue cfg idx q p = .ok u ∧
    t = u.switchSend cfg idx q p := by
  unfold acceptPacket at call
  rw [matched] at call
  obtain ⟨q', same, call⟩ := bind_ok call
  cases same
  rw [if_pos admitted] at call
  split at call
  · cases call
  · obtain ⟨u, notified, call⟩ := bind_ok call
    cases call
    exact ⟨u, notified, rfl⟩

theorem hierMove_enters {s t : Switch n} {dev : Fin n} {level q nextQ : ℕ} {p : Packet n}
    {rest : List (Packet n)} {b b' : Bool} (head : s.queues dev q = p :: rest)
    (check : s.checkDequeueHierQ cfg dev level q p = .ok (some (some nextQ)))
    (call : hierMove cfg dev level (s, b) q = .ok (t, b')) : ∃ u v w,
    (s.popQueue dev q 0 p).notifyDequeue cfg dev q p = .ok u ∧
    u.removeFromEgressAdmission dev q p.size = .ok v ∧
      (v.pushQueue dev p nextQ).notifyEnqueue cfg dev nextQ p = .ok w ∧
      t = w.updateEgressAdmission dev nextQ p.size := by
  rcases hierMove_cases call with same | ⟨p', rest', nextQ', u, v, w, head', check', left, removed,
    entered, after⟩
  · subst same
    unfold hierMove at call
    simp only [head] at call
    rw [check] at call
    obtain ⟨next, same, call⟩ := bind_ok call
    cases same
    obtain ⟨u, left, call⟩ := bind_ok call
    obtain ⟨v, removed, call⟩ := bind_ok call
    split at call
    · cases call
    · rename_i pushed stored
      obtain ⟨w, entered, call⟩ := bind_ok call
      rw [doEnqueue_some stored] at entered
      exact ⟨u, v, w, left, removed, entered, (Prod.mk.inj (Except.ok.inj call)).1.symm⟩
  · rw [head] at head'
    cases head'
    rw [check] at check'
    cases check'
    exact ⟨u, v, w, left, removed, entered, after⟩

/-! ### What notifications leave alone -/

/-- Nothing but control state differs between `s` and `t`. -/
structure SameBuffers (s t : Switch n) : Prop where
  queues : t.queues = s.queues
  bytesInQueue : t.bytesInQueue = s.bytesInQueue
  bytesInQueueTotal : t.bytesInQueueTotal = s.bytesInQueueTotal
  nQueue : t.nQueue = s.nQueue
  priorities : t.priorities = s.priorities
  egressBytes : t.egressBytes = s.egressBytes
  departed : t.departed = s.departed

theorem sameBuffers_refl (s : Switch n) : SameBuffers s s := ⟨rfl, rfl, rfl, rfl, rfl, rfl, rfl⟩

theorem sameBuffers_trans {s t u : Switch n} (h : SameBuffers s t) (k : SameBuffers t u) :
    SameBuffers s u :=
  ⟨k.1.trans h.1, k.2.trans h.2, k.3.trans h.3, k.4.trans h.4, k.5.trans h.5, k.6.trans h.6,
    k.7.trans h.7⟩

theorem sameBuffers_setEntry (s : Switch n) (root : Spot) (e : CAMEntry n) :
    SameBuffers s (s.setEntry root e) := ⟨rfl, rfl, rfl, rfl, rfl, rfl, rfl⟩

theorem packetCtl_buffers {s t : Switch n} (h : PacketCtl cfg s t) : SameBuffers s t := by
  cases h with
  | rootResume e q =>
    unfold notifyDequeueFromOQ
    split <;> exact ⟨rfl, rfl, rfl, rfl, rfl, rfl, rfl⟩
  | _ => exact ⟨rfl, rfl, rfl, rfl, rfl, rfl, rfl⟩

theorem packetCtls_buffers {s t : Switch n} (h : PacketCtls cfg s t) : SameBuffers s t :=
  packetCtls_preserve (I := SameBuffers s) (fun _ _ before last =>
    sameBuffers_trans before (packetCtl_buffers last)) (sameBuffers_refl s) h

/-- A packet entering `q` changes the control state only, and counts into the root of `q` if `q` is
a CIQ. -/
theorem notifyEnqueue_ctl {s t : Switch n} {idx : Fin n} {q : ℕ} {p : Packet n}
    (h : s.notifyEnqueue cfg idx q p = .ok t) :
    (q < queueNum ∧ PacketCtls cfg s t) ∨
    (queueNum ≤ q ∧ ∃ root e, s.ciqRootMap idx q = some root ∧ s.getEntry root = some e ∧
      PacketCtls cfg (s.countIn root e p) t) := by
  unfold notifyEnqueue at h
  split at h
  · rename_i zero
    cases h
    exact .inl ⟨by simp [zero, queueNum], .refl⟩
  split at h
  · rename_i oq
    cases h
    exact .inl ⟨oq, notifyEnqueueIntoOQ_ctl s p.inDev idx q⟩
  · rename_i ciq
    obtain ⟨root, e, mapped, found, steps⟩ := notifyEnqueueIntoCIQ_ctl h
    exact .inr ⟨by omega, root, e, mapped, found, entryCtls_packet steps⟩

theorem notifyDequeue_ctl {s t : Switch n} {ifIndex : Fin n} {q : ℕ} {p : Packet n}
    (h : s.notifyDequeue cfg ifIndex q p = .ok t) :
    (q < queueNum ∧ PacketCtls cfg s t) ∨
    (queueNum ≤ q ∧ ∃ root e, s.ciqRootMap ifIndex q = some root ∧ s.getEntry root = some e ∧
      PacketCtls cfg (s.countOut root e p) t) := by
  unfold notifyDequeue at h
  split at h
  · rename_i zero
    cases h
    exact .inl ⟨by simp [zero, queueNum], .refl⟩
  split at h
  · rename_i oq
    cases h
    exact .inl ⟨oq, .single (.rootResume ifIndex q)⟩
  · rename_i ciq
    obtain ⟨root, e, mapped, found, steps⟩ := notifyDequeueFromCIQ_ctl h
    exact .inr ⟨by omega, root, e, mapped, found, entryCtls_packet steps⟩

theorem notifyEnqueue_buffers {s t : Switch n} {idx : Fin n} {q : ℕ} {p : Packet n}
    (h : s.notifyEnqueue cfg idx q p = .ok t) : SameBuffers s t := by
  rcases notifyEnqueue_ctl h with ⟨_, steps⟩ | ⟨_, root, e, _, _, steps⟩
  · exact packetCtls_buffers steps
  · exact sameBuffers_trans (sameBuffers_setEntry s root _) (packetCtls_buffers steps)

theorem notifyDequeue_buffers {s t : Switch n} {ifIndex : Fin n} {q : ℕ} {p : Packet n}
    (h : s.notifyDequeue cfg ifIndex q p = .ok t) : SameBuffers s t := by
  rcases notifyDequeue_ctl h with ⟨_, steps⟩ | ⟨_, root, e, _, _, steps⟩
  · exact packetCtls_buffers steps
  · exact sameBuffers_trans (sameBuffers_setEntry s root _) (packetCtls_buffers steps)

theorem hierMove_queues {s u v w : Switch n} {dev : Fin n} {q nextQ : ℕ} {p : Packet n}
    (left : (s.popQueue dev q 0 p).notifyDequeue cfg dev q p = .ok u)
    (removed : u.removeFromEgressAdmission dev q p.size = .ok v)
    (entered : (v.pushQueue dev p nextQ).notifyEnqueue cfg dev nextQ p = .ok w) :
    w.queues = ((s.popQueue dev q 0 p).pushQueue dev p nextQ).queues ∧ w.departed = s.departed := by
  obtain ⟨_, rfl⟩ := removeFromEgressAdmission_ok removed
  have first := notifyDequeue_buffers left
  have second := notifyEnqueue_buffers entered
  refine ⟨second.queues.trans ?_, second.departed.trans first.departed⟩
  simp only [pushQueue, setEgress, first.queues]

theorem hierMove_priorities {s t : Switch n} {dev : Fin n} {level q : ℕ} {b b' : Bool}
    (h : hierMove cfg dev level (s, b) q = .ok (t, b')) : t.priorities = s.priorities := by
  rcases hierMove_cases h with rfl | ⟨p, rest, nextQ, u, v, w, _, _, left, removed, entered, rfl⟩
  · rfl
  obtain ⟨_, rfl⟩ := removeFromEgressAdmission_ok removed
  have first := (notifyDequeue_buffers left).priorities
  have second := (notifyEnqueue_buffers entered).priorities
  exact second.trans first

/-! ### Invariants of events -/

/-- What the operations of one event do to a property `I`; moves belong to a round. -/
structure Preserves (cfg : Config n) (I : Switch n → Prop) (s : Switch n) (ev : Event n) :
    Prop where
  accept : ∀ idx p pick u, ev = .sendToDev idx p pick → ¬p.isFrame →
    s.acceptPacket cfg idx p = .ok u → I u
  transmit : ∀ u v dev pick, I u → u.dequeueAndTransmit cfg dev pick = .ok v → I v
  move : ∀ u v dev level q b b', I u → q ∈ u.priorities dev level →
    hierMove cfg dev level (u, b) q = .ok (v, b') → I v
  signal : ∀ tag p pick u, ev = .receiveCI tag p pick → SignalCtls cfg tag p s u → I u
  frame : ∀ dev p, p.isFrame → I (s.switchSend cfg dev 0 p)

theorem hierLevel_preserves {I : Switch n → Prop}
    (move : ∀ u v dev level q b b', I u → q ∈ u.priorities dev level →
      hierMove cfg dev level (u, b) q = .ok (v, b') → I v)
    {dev : Fin n} {level : ℕ} {acc acc' : Switch n × Bool} (start : I acc.1)
    (h : hierLevel cfg dev acc level = .ok acc') : I acc'.1 := by
  have loop := foldlM_preserves (l := acc.1.priorities dev level)
    (I := fun x : Switch n × Bool => I x.1 ∧ x.1.priorities = acc.1.priorities) ?_ ⟨start, rfl⟩ h
  · exact loop.1
  rintro q member ⟨u, b⟩ ⟨v, b'⟩ ⟨before, same⟩ call
  exact ⟨move u v dev level q b b' before (by rw [same]; exact member) call,
    (hierMove_priorities call).trans same⟩

theorem doHierQRR_preserves {I : Switch n → Prop}
    (transmit : ∀ u v dev pick, I u → u.dequeueAndTransmit cfg dev pick = .ok v → I v)
    (move : ∀ u v dev level q b b', I u → q ∈ u.priorities dev level →
      hierMove cfg dev level (u, b) q = .ok (v, b') → I v)
    {s t : Switch n} {picks : Fin n → Option (ℕ × ℕ)} (start : I s)
    (h : s.doHierQRR cfg picks = .ok t) : I t := by
  refine foldlM_preserves ?_ start h
  intro dev _ u v before call
  obtain ⟨⟨w, intoOQ⟩, loop, call⟩ := bind_ok call
  have after : I w := foldlM_preserves (I := fun x : Switch n × Bool => I x.1)
    (fun level _ acc acc' before call => hierLevel_preserves move before call) before loop
  simp only at call
  split at call
  · exact transmit w v dev (picks dev) after call
  · cases call
    exact after

theorem step_induct {I : Switch n → Prop} {s t : Switch n} {ev : Event n}
    (ops : Preserves cfg I s ev) (start : I s) (h : s.step cfg ev = .ok t) : I t := by
  cases ev with
  | sendToDev idx p pick =>
    simp only [step, sendToDev] at h
    split at h
    · cases h
      exact start
    rename_i data
    obtain ⟨u, accepted, h⟩ := bind_ok h
    obtain ⟨v, sent, h⟩ := bind_ok h
    have stored := ops.accept idx p pick u rfl (by simpa [Packet.isFrame] using data) accepted
    unfold doStatistics at h
    split at h
    · cases h
      exact ops.transmit u _ idx pick stored sent
    · cases h
  | doHierQRR picks => exact doHierQRR_preserves ops.transmit ops.move start h
  | receiveCI tag ingress pick =>
    obtain ⟨u, pick', steps, sent⟩ := receiveCI_ctl h
    exact ops.transmit u t ingress pick' (ops.signal tag ingress pick u rfl steps) sent
  | dequeueAndTransmit dev pick => exact ops.transmit s t dev pick start h
  | sendFrame dev p pick =>
    simp only [step] at h
    split at h
    · rename_i frame
      exact ops.transmit _ t dev pick (ops.frame dev p frame) h
    · cases h
      exact start

/-! ### Runs of operations -/

end Switch

/-- The operations events are made of. -/
inductive Op (n : ℕ) where
  | accept (idx : Fin n) (p : Packet n)
  | transmit (dev : Fin n) (pick : Option (ℕ × ℕ))
  | move (dev : Fin n) (level q : ℕ)
  | signal (tag : CITag) (ingress : Fin n) (pick : Option (ℕ × ℕ))
  | frame (dev : Fin n) (p : Packet n)

namespace Switch

/-- `t` is the state after the operation in `s`. -/
inductive Operated (cfg : Config n) (s : Switch n) : Op n → Switch n → Prop where
  | accept {t : Switch n} {idx : Fin n} {p : Packet n} (data : ¬p.isFrame)
      (call : s.acceptPacket cfg idx p = .ok t) : Operated cfg s (.accept idx p) t
  | transmit {t : Switch n} {dev : Fin n} {pick : Option (ℕ × ℕ)}
      (call : s.dequeueAndTransmit cfg dev pick = .ok t) : Operated cfg s (.transmit dev pick) t
  | move {t : Switch n} {dev : Fin n} {level q : ℕ} {b b' : Bool}
      (visited : q ∈ s.priorities dev level)
      (call : hierMove cfg dev level (s, b) q = .ok (t, b')) : Operated cfg s (.move dev level q) t
  | signal {t : Switch n} {tag : CITag} {ingress : Fin n} {pick : Option (ℕ × ℕ)}
      (call : s.receiveCI cfg tag ingress pick = .ok t) :
        Operated cfg s (.signal tag ingress pick) t
  | frame {dev : Fin n} {p : Packet n} (built : p.isFrame) :
      Operated cfg s (.frame dev p) (s.switchSend cfg dev 0 p)

/-- The states of the runs of operations, in any order, that are `allowed` in the state before
them. -/
inductive Operates (cfg : Config n) (allowed : Switch n → Op n → Prop) : Switch n → Prop where
  | initial : Operates cfg allowed {}
  | step {s t : Switch n} {op : Op n} : Operates cfg allowed s → allowed s op →
      Operated cfg s op t → Operates cfg allowed t

def perform (cfg : Config n) (s : Switch n) : Op n → Option (Switch n)
  | .accept idx p => if p.isFrame then none else (s.acceptPacket cfg idx p).toOption
  | .transmit dev pick => (s.dequeueAndTransmit cfg dev pick).toOption
  | .move dev level q =>
    if q ∈ s.priorities dev level then (hierMove cfg dev level (s, false) q).toOption.map Prod.fst
      else none
  | .signal tag ingress pick => (s.receiveCI cfg tag ingress pick).toOption
  | .frame dev p => if p.isFrame then some (s.switchSend cfg dev 0 p) else none

theorem perform_operated {s t : Switch n} {op : Op n} (h : s.perform cfg op = some t) :
    Operated cfg s op t := by
  cases op with
  | accept idx p =>
    simp only [perform] at h
    split at h
    · cases h
    · rename_i data
      exact .accept data (toOption_eq_some.mp h)
  | transmit dev pick => exact .transmit (toOption_eq_some.mp h)
  | move dev level q =>
    simp only [perform] at h
    split at h
    · rename_i visited
      obtain ⟨⟨u, b⟩, moved, rfl⟩ := Option.map_eq_some_iff.mp h
      exact .move visited (toOption_eq_some.mp moved)
    · cases h
  | signal tag ingress pick => exact .signal (toOption_eq_some.mp h)
  | frame dev p =>
    simp only [perform] at h
    split at h
    · rename_i built
      cases h
      exact .frame built
    · cases h

/-- The run of a list of operations, as long as they are `allowed`. -/
def performs (cfg : Config n) (allowed : Switch n → Op n → Prop) [∀ s op, Decidable (allowed s op)]
    (s : Switch n) : List (Op n) → Option (Switch n)
  | [] => some s
  | op :: rest =>
    if allowed s op then (s.perform cfg op).bind fun t => performs cfg allowed t rest else none

theorem operates_performs {allowed : Switch n → Op n → Prop} [∀ s op, Decidable (allowed s op)]
    {ops : List (Op n)} {s t : Switch n} (start : Operates cfg allowed s)
    (ends : performs cfg allowed s ops = some t) : Operates cfg allowed t := by
  induction ops generalizing s with
  | nil =>
    cases ends
    exact start
  | cons op rest ih =>
    unfold performs at ends
    split at ends
    · rename_i ok
      obtain ⟨u, performed, ends⟩ := Option.bind_eq_some_iff.mp ends
      exact ih (.step start ok (perform_operated performed)) ends
    · cases ends

theorem step_operates {allowed : Switch n → Op n → Prop} {s t : Switch n} {ev : Event n}
    (accepts : ∀ idx p pick, ev = .sendToDev idx p pick → allowed s (.accept idx p))
    (others : ∀ u op, (∀ idx p, op ≠ .accept idx p) → allowed u op) (start : Operates cfg allowed s)
    (h : s.step cfg ev = .ok t) : Operates cfg allowed t := by
  cases ev with
  | receiveCI tag ingress pick => exact .step start (others _ _ (by simp)) (.signal h)
  | _ =>
    refine step_induct (I := Operates cfg allowed) ⟨?_, ?_, ?_, ?_, ?_⟩ start h
    · exact fun idx p pick u event data call =>
        .step start (accepts idx p pick event) (.accept data call)
    · exact fun u v dev pick before call => .step before (others _ _ (by simp)) (.transmit call)
    · exact fun u v dev level q b b' before visited call =>
        .step before (others _ _ (by simp)) (.move visited call)
    · exact fun tag p pick u event => by cases event
    · exact fun dev p built => .step start (others _ _ (by simp)) (.frame built)

/-- The egress queue takes what `SendToDev` admits to a queue in `Q`. -/
def Taken (cfg : Config n) (Q : ℕ → Prop) (s : Switch n) (idx : Fin n) (p : Packet n) : Prop :=
  ∀ q, s.matchQ cfg idx p = .ok q → s.admits cfg idx q p → Q q → s.bytesInQueueTotal idx + p.size <
    cfg.maxBytes

/-- Runs of operations in which nothing admitted to a queue in `Q` is lost on the way to it. -/
abbrev OperatesTaken (cfg : Config n) (Q : ℕ → Prop) : Switch n → Prop :=
  Operates cfg fun s op => ∀ idx p, op = .accept idx p → Taken cfg Q s idx p

theorem step_taken {Q : ℕ → Prop} {s t : Switch n} {ev : Event n} (start : OperatesTaken cfg Q s)
    (taken : ∀ idx p pick, ev = .sendToDev idx p pick → Taken cfg Q s idx p)
    (h : s.step cfg ev = .ok t) : OperatesTaken cfg Q t := by
  refine step_operates ?_ ?_ start h
  · intro idx p pick event idx' p' same
    cases same
    exact taken idx p pick event
  · intro u op other idx p same
    exact absurd same (other idx p)

/-- The runs of events in which nothing admitted to a queue in `Q` is lost are such runs. -/
theorem reachable_operates {Q : ℕ → Prop} {s : Switch n}
    (h : Reachable cfg (fun s ev _ => ∀ idx p pick, ev = .sendToDev idx p pick →
      Taken cfg Q s idx p) s) :
    OperatesTaken cfg Q s := by
  induction h with
  | initial => exact .initial
  | step _ call taken ih => exact step_taken ih taken call

instance (Q : ℕ → Prop) [DecidablePred Q] (s : Switch n) (idx : Fin n) (p : Packet n) :
    Decidable (Taken cfg Q s idx p) :=
  decidable_of_iff (∀ q ∈ (s.matchQ cfg idx p).toOption, s.admits cfg idx q p → Q q →
    s.bytesInQueueTotal idx + p.size < cfg.maxBytes) (by simp [Taken, toOption_eq_some])

instance (Q : ℕ → Prop) [DecidablePred Q] (s : Switch n) (op : Op n) :
    Decidable (∀ idx p, op = .accept idx p → Taken cfg Q s idx p) :=
  match op with
  | .accept idx p =>
    decidable_of_iff (Taken cfg Q s idx p)
      ⟨fun taken _ _ same => by cases same; exact taken, fun all => all idx p rfl⟩
  | .transmit .. | .move .. | .signal .. | .frame .. => isTrue fun _ _ same => by cases same

end Switch

end Pyrrha

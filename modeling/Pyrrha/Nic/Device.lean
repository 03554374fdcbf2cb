import Mathlib.Algebra.Order.Ring.Int
import Pyrrha.Rdma.Lists

/-!
The NIC of a host without tokens: `RdmaEgressQueue` with its queue pairs,
`QbbNetDevice::DequeueAndTransmit`, and the event `m_nextSend` that wakes it up.
-/

namespace Pyrrha
open Lib Rdma

namespace Nic

/-- `m_pfc_fine`. -/
inductive PfcGran where
  | off | pg | dst | qp | spot | queue
  deriving DecidableEq

/-- The settings of a NIC. `ackQIdx` is `ack_q_idx`, `headers` are the bytes `GetNxtPacket` puts
before the payload, `txTime` the time of `DataRate::CalculateTxTime` for a rate and a number of
bytes, `portScale` is `switch_num + host_per_rack`. -/
structure NicConfig where
  snd : SndConfig
  ackQIdx : ℕ
  pfcFine : PfcGran
  portScale : ℕ
  quotaMode : Bool
  rateBound : Bool
  resetQpRate : Bool
  winInitial : ℕ
  headers : ℕ
  interframeGap : ℕ
  bps : ℕ
  txTime : ℕ → ℕ → ℕ

/-- `RdmaSndQueuePair` with its identifiers, its rate and its window. `routingTag` are the hops of
each message. -/
structure SenderQp where
  qp : SndQueuePair := {}
  pg : ℕ
  dst : ℕ
  qpid : ℕ
  queueId : ℕ
  routingTag : ℕ → List (ℕ × ℕ) := fun _ => []
  nextAvail : ℤ
  pacingDelay : ℕ := 0
  lastPktSize : ℕ
  win : ℕ
  varWin : Bool
  rate : ℕ
  maxRate : ℕ

/-- The queue pairs of `m_qpGrp`; without tokens nothing of a receiver is looked at. -/
inductive HostQp where
  | snd (q : SenderQp)
  | rx

/-- `QbbNetDevice` of a host. `ackQ` are the sizes of the packets of `m_ackQ`, `nextSend` is the
time of `m_nextSend` while the event is not expired, and `txComplete` that of `TransmitComplete`
while the channel is busy. -/
structure NetDevice where
  now : ℕ := 0
  qps : List HostQp := []
  rrlast : ℕ := 0
  ackQ : List ℕ := []
  paused : ℕ → Bool := fun _ => false
  linkUp : Bool := true
  nextSend : Option ℤ := none
  txComplete : Option ℤ := none

/-- What `DequeueAndTransmit` does: it returns at once, it sends a packet, or it finds none. -/
inductive Turn where
  | off | sent | none
  deriving DecidableEq

/-- `Simulator::GetMaximumSimulationTime`. -/
def maxTime : ℤ := 2 ^ 63 - 1

namespace SenderQp

def getNextAvailT (q : SenderQp) : ℤ := q.nextAvail + q.pacingDelay

def bytesLeft (cfg : NicConfig) (q : SenderQp) : ℕ := q.qp.getBytesLeft cfg.snd

/-- `IsWinBound` for the bytes a message has in flight. -/
def isWinBound (cfg : NicConfig) (q : SenderQp) (inflight : ℕ) : Bool :=
  Rdma.isWinBound cfg.snd.enableQpWinBound (getWin q.win q.varWin q.rate q.maxRate) inflight

def shouldSndData (cfg : NicConfig) (now : ℕ) (q : SenderQp) : Except Halt (SenderQp × Bool) := do
  let (qp, ready) ← q.qp.shouldSndData cfg.snd
  let q := { q with qp := qp }
  match ready with
  | none => .ok (q, false)
  | some msg =>
    if (now : ℤ) < q.getNextAvailT then .ok (q, false)
    else do
      let inflight ← orHalt .other (msg.op.getOnTheFly (msg.cfg cfg.snd.toQpConfig))
      .ok (q, !q.isWinBound cfg inflight)

/-- Whether a pause holds the queue pair back, for the granularity of the NIC. -/
def isPaused (cfg : NicConfig) (paused : ℕ → Bool) (q : SenderQp) : Except Halt Bool :=
  match cfg.pfcFine with
  | .off => .error .other
  | .pg => .ok (paused q.pg)
  | .dst => .ok (paused q.dst)
  | .qp => .ok (paused q.qpid)
  | .queue => .ok (paused q.queueId)
  | .spot => do
    let msg ← orHalt .other (q.qp.peek cfg.snd)
    .ok ((q.routingTag msg.msgSeq).any fun hop => paused (hop.1 * cfg.portScale + hop.2))

/-- `ResetQP` when `GetNxtPacket` has sent the last packet of a message. -/
def resetQP (cfg : NicConfig) (q : SenderQp) : SenderQp :=
  { q with win := cfg.winInitial, rate := cfg.bps, maxRate := cfg.bps, pacingDelay := 0 }

/-- `GetNxtPacket` and `PktSent`: the queue pair, and the size of the packet. -/
def sendPacket (cfg : NicConfig) (now : ℕ) (q : SenderQp) : Except Halt (SenderQp × ℕ) := do
  let (qp, msg, pkt) ← q.qp.getNxtPacket cfg.snd
  let q := { q with qp := qp }
  let q := if cfg.resetQpRate && decide (msg.bytesLeft cfg.snd.toQpConfig = 0) then q.resetQP cfg
    else q
  let size := pkt.payload + cfg.headers
  let sendingTime :=
    cfg.interframeGap + cfg.txTime (if cfg.rateBound then q.rate else q.maxRate) size
  .ok ({ q with lastPktSize := size, nextAvail := now + sendingTime }, size)

/-- The new next-available time in `ChangeRate`. -/
def shiftAvail (cfg : NicConfig) (q : SenderQp) (rate : ℕ) : SenderQp :=
  { q with
    nextAvail := q.nextAvail + cfg.txTime rate q.lastPktSize - cfg.txTime q.rate q.lastPktSize }

end SenderQp

def HostQp.sender : HostQp → Option SenderQp
  | .snd q => some q
  | .rx => none

namespace NetDevice

def senders (d : NetDevice) : List SenderQp := d.qps.filterMap HostQp.sender

def senderAt (d : NetDevice) (i : ℕ) : Option SenderQp := d.qps[i]?.bind HostQp.sender

/-- `GetNextQindex` from the indices that are left: the queue pairs as it leaves them, and the one
it picks. `quota` is what `CheckUschQuota` says of each. -/
def nextQp (cfg : NicConfig) (quota : ℕ → Bool) (d : NetDevice) : List ℕ →
    Except Halt (NetDevice × Option ℕ)
  | [] => .ok (d, none)
  | i :: rest =>
    match d.qps[i]? with
    | some (.snd q) => do
      let (q, ready) ← q.shouldSndData cfg d.now
      let d := { d with qps := d.qps.set i (.snd q) }
      if !ready || (cfg.quotaMode && !quota i) then d.nextQp cfg quota rest
      else do
        if ← q.isPaused cfg d.paused then d.nextQp cfg quota rest else .ok (d, some i)
    | _ => d.nextQp cfg quota rest

/-- The indices in the order of the round robin. -/
def rrOrder (d : NetDevice) : List ℕ := (List.range d.qps.length).map fun i =>
    (i + 1 + d.rrlast) % d.qps.length

def transmitStart (cfg : NicConfig) (d : NetDevice) (size : ℕ) : NetDevice :=
  { d with txComplete := some (d.now + cfg.txTime cfg.bps size + cfg.interframeGap) }

/-- The minimum of the next-available times of the sender queue pairs with bytes left. -/
def soonest (cfg : NicConfig) : List HostQp → ℤ
  | [] => maxTime
  | .snd q :: rest =>
      if q.bytesLeft cfg = 0 then soonest cfg rest else min q.getNextAvailT (soonest cfg rest)
  | .rx :: rest => soonest cfg rest

/-- The branch of `DequeueAndTransmit` without a packet to send. -/
def sleep (cfg : NicConfig) (d : NetDevice) : NetDevice :=
  let t := soonest cfg d.qps
  if d.nextSend = none ∧ t < maxTime ∧ d.now < t then { d with nextSend := some t } else d

/-- The queue pair `i` sends a packet. -/
def sendData (cfg : NicConfig) (d : NetDevice) (i : ℕ) : Except Halt NetDevice :=
  match d.qps[i]? with
  | some (.snd q) => do
    let (q, size) ← q.sendPacket cfg d.now
    .ok ({ d with qps := d.qps.set i (.snd q), rrlast := i }.transmitStart cfg size)
  | _ => .error .other

def dequeueAndTransmit (cfg : NicConfig) (quota : ℕ → Bool) (d : NetDevice) :
    Except Halt (NetDevice × Turn) :=
  if !d.linkUp || d.txComplete.isSome then .ok (d, .off)
  else
    match d.paused cfg.ackQIdx, d.ackQ with
    | false, size :: rest => .ok ({ d with ackQ := rest }.transmitStart cfg size, .sent)
    | _, _ => do
      match ← d.nextQp cfg quota d.rrOrder with
      | (d, some i) => do
        let d ← d.sendData cfg i
        .ok (d, .sent)
      | (d, none) => .ok (d.sleep cfg, .none)

def updateNextAvail (d : NetDevice) (t : ℤ) : NetDevice :=
  match d.nextSend with
  | some ts => if t < ts ∧ d.now < t then { d with nextSend := some t } else d
  | none => d

def changeRate (cfg : NicConfig) (d : NetDevice) (i rate : ℕ) : Except Halt NetDevice :=
  match d.qps[i]? with
  | some (.snd q) =>
    let q := q.shiftAvail cfg rate
    let d := d.updateNextAvail q.nextAvail
    .ok { d with qps := d.qps.set i (.snd { q with rate := rate }) }
  | _ => .error .disabled

end NetDevice

/-! ### Runs -/

/-- What happens to the messages of a queue pair. -/
inductive Arrival where
  | add (msgSeq size : ℕ)
  | ack (msgSeq : ℕ) (pkt : AckPacket)
  | irnTimer (msgSeq seq : ℕ)
  | timeout

def Arrival.apply (cfg : NicConfig) (qp : SndQueuePair) : Arrival → Except Halt SndQueuePair
  | .add msgSeq size =>
    if h : size < 2 ^ 32 then .ok (qp.addRdmaOperation ⟨msgSeq, size, h, {}, [], qp.now⟩)
      else .error .disabled
  | .ack msgSeq pkt => qp.receive cfg.snd.toQpConfig msgSeq pkt
  | .irnTimer msgSeq seq => qp.irnTimerHandler cfg.snd.toQpConfig msgSeq seq
  | .timeout => .ok (qp.recoverMSG cfg.snd.toQpConfig)

/-- The events of a NIC. What the source does in one go is several of them: an acknowledgement
arrives, changes the rate or the window, and triggers the NIC; `RedistributeQp` clears `m_qpGrp` and
assigns the queue pairs anew. -/
inductive NicEvent where
  | newSender (q : SenderQp)
  | newReceiver
  | clear
  | reassigned (q : SenderQp)
  | arrives (i : ℕ) (a : Arrival)
  | changeRate (i rate : ℕ)
  | updateWin (i win pacingDelay : ℕ)
  | pause (id : ℕ) (b : Bool)
  | enqueueAck (size : ℕ)
  | link (up : Bool)
  | tick (t : ℕ)
  | trigger (quota : ℕ → Bool)
  | wakeUp (quota : ℕ → Bool)
  | transmitComplete (quota : ℕ → Bool)

namespace NetDevice

/-- A change of the sender queue pair `i`. -/
def onSender (d : NetDevice) (i : ℕ) (f : SenderQp → Except Halt SenderQp) :
    Except Halt NetDevice :=
  match d.qps[i]? with
  | some (.snd q) => do
    let q ← f q
    .ok { d with qps := d.qps.set i (.snd q) }
  | _ => .error .disabled

/-- The queue pairs see the clock of the simulator. -/
def tick (d : NetDevice) (t : ℕ) : NetDevice :=
  { d with
    now := t
    qps := d.qps.map fun
      | .snd q => .snd { q with qp := { q.qp with now := t } }
      | .rx => .rx }

/-- What an event does before `DequeueAndTransmit`, if it calls it. -/
def prepare (cfg : NicConfig) (d : NetDevice) : NicEvent → Except Halt NetDevice
  | .newSender q =>
    .ok { d with qps := d.qps ++ [.snd
      { q with qp := { now := d.now }, nextAvail := d.now, pacingDelay := 0 }] }
  | .newReceiver => .ok { d with qps := d.qps ++ [.rx] }
  | .clear => .ok { d with qps := [] }
  | .reassigned q =>
      .ok { d with qps := d.qps ++ [.snd { q with qp := { q.qp with now := d.now } }] }
  | .arrives i a => d.onSender i fun q => do
    let qp ← a.apply cfg q.qp
    .ok { q with qp := qp }
  | .changeRate i rate => d.changeRate cfg i rate
  | .updateWin i win pacingDelay =>
      d.onSender i fun q => .ok { q with win := win, pacingDelay := pacingDelay }
  | .pause id b => .ok { d with paused := Function.update d.paused id b }
  | .enqueueAck size => .ok { d with ackQ := d.ackQ ++ [size] }
  | .link up => .ok { d with linkUp := up, ackQ := if up then d.ackQ else [] }
  | .tick t =>
    if d.now ≤ t ∧ (∀ ts ∈ d.nextSend, (t : ℤ) ≤ ts) ∧
      ∀ ts ∈ d.txComplete, (t : ℤ) ≤ ts then .ok (d.tick t)
    else .error .disabled
  | .trigger _ => .ok d
  | .wakeUp _ =>
      if d.nextSend = some (d.now : ℤ) then .ok { d with nextSend := none } else .error .disabled
  | .transmitComplete _ =>
    if d.txComplete = some (d.now : ℤ) then .ok { d with txComplete := none } else .error .disabled

end NetDevice

/-- The quota an event calls `DequeueAndTransmit` with, if it does. -/
def NicEvent.calls : NicEvent → Option (ℕ → Bool)
  | .trigger quota | .wakeUp quota | .transmitComplete quota => some quota
  | _ => none

namespace NetDevice

/-- An event, and what `DequeueAndTransmit` did in it. -/
def step (cfg : NicConfig) (d : NetDevice) (ev : NicEvent) : Except Halt (NetDevice × Turn) := do
  let d ← d.prepare cfg ev
  match ev.calls with
  | some quota => d.dequeueAndTransmit cfg quota
  | none => .ok (d, .off)

/-- The call of `DequeueAndTransmit` in the event found nothing to send, and no wake-up pending. -/
def setsWakeUp (cfg : NicConfig) (d : NetDevice) (ev : NicEvent) (turn : Turn) : Bool :=
  decide (turn = .none) && (d.prepare cfg ev).toOption.any fun e => e.nextSend.isNone

/-- The runs, with the device as it was left by the last call that could set `m_nextSend`. -/
inductive Runs (cfg : NicConfig) : NetDevice → NetDevice → Prop where
  | initial : Runs cfg {} {}
  | step {slept d d' : NetDevice} {ev : NicEvent} {turn : Turn} : Runs cfg slept d →
      d.step cfg ev = .ok (d', turn) → Runs cfg (if d.setsWakeUp cfg ev turn then d' else slept) d'

def run (cfg : NicConfig) (s : NetDevice × NetDevice) (evs : List NicEvent) :
    Option (NetDevice × NetDevice) :=
  evs.foldlM (fun s ev => (s.2.step cfg ev).toOption.map fun r =>
    (if s.2.setsWakeUp cfg ev r.2 then r.1 else s.1, r.1)) s

theorem runs_run {cfg : NicConfig} {s t : NetDevice × NetDevice} {evs : List NicEvent}
    (start : Runs cfg s.1 s.2) (ends : run cfg s evs = some t) : Runs cfg t.1 t.2 := by
  induction evs generalizing s with
  | nil =>
    cases ends
    exact start
  | cons ev rest ih =>
    obtain ⟨mid, first, ends⟩ := Option.bind_eq_some_iff.mp ((List.foldlM_cons ..).symm.trans ends)
    obtain ⟨⟨e, turn⟩, call, rfl⟩ := Option.map_eq_some_iff.mp first
    exact ih (.step start (toOption_eq_some.mp call)) ends

end NetDevice

end Nic

end Pyrrha

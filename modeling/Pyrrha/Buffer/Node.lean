import Pyrrha.Buffer.Mmu
import Pyrrha.Lib.Checked

/-!
`SwitchNode` as far as it moves bytes: arrival, transmission, the hierarchical round, what Floodgate
holds back and releases, and the loss of a link. `SwitchSend` ends with `DequeueAndTransmit`; in a
run every transmission is a step of its own, which may follow at any time. `sendToDevNow` has the
one of `SendToDev` in it.
-/

namespace Pyrrha
open Lib

namespace Buffer

variable {n : ℕ}

/-- A packet that has come in through `inDev`: `QbbNetDevice::Receive` gives it its `FlowIdTag`. -/
def Packet.arrived (p : Packet n) (inDev : Fin n) : Packet n := { p with inDev := some inDev }

namespace State

/-! ### BEgressQueue and QbbNetDevice -/

/-- `BEgressQueue::DoEnqueue`; `none` is its `false`. -/
def doEnqueue (cfg : Config n) (s : State n) (dev : Fin n) (q : ℕ) (counted : Bool) (p : Packet n) :
    Option (State n) :=
  if add32 (s.bytesInQueueTotal dev) p.size < cfg.maxBytes then
    some { s with
      held := s.held ++ [⟨dev, q, .queue, counted, p⟩]
      bytesInQueue := update₂ s.bytesInQueue dev q (add32 (s.bytesInQueue dev q) p.size)
      bytesInQueueTotal :=
        Function.update s.bytesInQueueTotal dev (add32 (s.bytesInQueueTotal dev) p.size) }
  else none

/-- `QbbNetDevice::SwitchSend`, which ignores what `Enqueue` returns. -/
def switchSend (cfg : Config n) (s : State n) (dev : Fin n) (q : ℕ) (counted : Bool)
    (p : Packet n) : State n :=
  (s.doEnqueue cfg dev q counted p).getD { s with refused := s.refused || p.inDev.isSome }

/-- `m_queues[q]->Dequeue` of the `k`-th buffered packet, with its byte counters. -/
def popQueue (s : State n) (k : ℕ) (it : Item n) : State n :=
  { s with
    held := s.held.eraseIdx k
    bytesInQueue := update₂ s.bytesInQueue it.dev it.q (sub32 (s.bytesInQueue it.dev it.q) it.size)
    bytesInQueueTotal :=
      Function.update s.bytesInQueueTotal it.dev (sub32 (s.bytesInQueueTotal it.dev) it.size) }

/-- The PFC frame `SendPfc` builds. -/
def pfcFrame (cfg : Config n) : Packet n where
  l3Prot := .pfc
  dst := ⟨0, by decide⟩
  size := cfg.pfcSize
  size_pos := cfg.pfcSize_pos
  size_lt := cfg.pfcSize_lt
  inDev := none
  fid := 0
  upstreamQ := 0
  counterIncr := false

/-- `QbbNetDevice::SendPfc`; `pause` is type 0. -/
def sendPfc (cfg : Config n) (s : State n) (dev : Fin n) (idx : ℕ) (pause : Bool) : State n :=
  { s with pfcFrames := s.pfcFrames ++ [(dev, idx, pause)] }.switchSend cfg dev 0 false
    (pfcFrame cfg)

def checkAndSendPfc (cfg : Config n) (s : State n) (inDev : Fin n) (idx : ℕ) : State n :=
  if s.checkShouldPause cfg inDev idx then (s.sendPfc cfg inDev idx true).setPause inDev idx else s

def checkAndSendResume (cfg : Config n) (s : State n) (inDev : Fin n) (idx : ℕ) : State n :=
  if s.checkShouldResume cfg inDev idx then (s.sendPfc cfg inDev idx false).setResume inDev idx
    else s

/-- `m_bytes[inDev][outDev][q] += psize`. -/
def addBytes (s : State n) (inDev dev : Fin n) (q psize : ℕ) : State n :=
  { s with
    bytes := fun i => if i = inDev then update₂ (s.bytes i) dev q (add32 (s.bytes i dev q) psize)
      else s.bytes i }

/-- `m_bytes[inDev][outDev][q] -= psize`. -/
def subBytes (s : State n) (inDev dev : Fin n) (q psize : ℕ) : State n :=
  { s with
    bytes := fun i => if i = inDev then update₂ (s.bytes i) dev q (sub32 (s.bytes i dev q) psize)
      else s.bytes i }

def setBuffering (s : State n) (dev : Fin n) (dst inAll inDev : ℕ) : State n :=
  { s with
    bufferingBytes := Function.update s.bufferingBytes dst inAll
    bufferingEgressBytes := update₂ s.bufferingEgressBytes dev dst inDev }

/-- `m_buffering_bytes` and `m_buffering_egress_bytes` of an arrival. -/
def addBuffering (s : State n) (dev : Fin n) (dst psize : ℕ) : State n :=
  s.setBuffering dev dst (add32 (s.bufferingBytes dst) psize)
    (add32 (s.bufferingEgressBytes dev dst) psize)

/-- `m_buffering_bytes` and `m_buffering_egress_bytes` of a departure. -/
def subBuffering (s : State n) (dev : Fin n) (dst psize : ℕ) : State n :=
  s.setBuffering dev dst (sub32 (s.bufferingBytes dst) psize)
    (sub32 (s.bufferingEgressBytes dev dst) psize)

def setFlow (s : State n) (dev : Fin n) (fid : ℕ) (size : Option ℕ) : State n :=
  { s with flowTb := update₂ s.flowTb dev fid size }

def setPauseCounter (s : State n) (dev : Fin n) (q count : ℕ) : State n :=
  { s with pauseCounter := update₂ s.pauseCounter dev q count }

/-! ### Arrival -/

/-- The flow entry `MatchQ` makes sure of in BFC. -/
def matchFlow (cfg : Config n) (s : State n) (dev : Fin n) (q : ℕ) (p : Packet n) : State n :=
  if cfg.fcMode = .bfc ∧ q ≠ 0 ∧ s.flowTb dev p.fid = none then s.setFlow dev p.fid (some 0) else s

/-- The admission test of `SendToDev`. -/
def admits (cfg : Config n) (s : State n) (inDev dev : Fin n) (q : ℕ) (p : Packet n) :
    Checked Bool :=
  if (!cfg.controlled q || s.checkIngressAdmission cfg inDev (cfg.pfcFine inDev q p) p.size) &&
      s.checkEgressAdmission cfg dev q p.size then
    if cfg.checkSharedBuffer then do
      let buffer ← s.doStatistics cfg
      .ok (decide (add32 p.size buffer < cfg.bufferSize))
    else .ok true
  else .ok false

/-- `UpdateIngressAdmission` as `SendToDev` calls it. -/
def chargeIngress (cfg : Config n) (s : State n) (inDev : Fin n) (q : ℕ) (p : Packet n) : State n :=
  if cfg.controlled q then s.updateIngressAdmission cfg inDev (cfg.pfcFine inDev q p) p.size else s

/-- The VOQ_DSTPFC part of `SendToDev`. -/
def arriveVoqDstPfc (cfg : Config n) (s : State n) (inDev dev : Fin n) (q : ℕ) (p : Packet n) :
    State n :=
  if q = 0 then s
  else
    let s := s.addBuffering dev p.dst p.size
    if !s.paused inDev p.dst && s.checkVOQPause cfg inDev dev q p.dst then
      (s.sendPfc cfg inDev p.dst true).setPause inDev p.dst
    else s

/-- The BFC part of `SendToDev`, with the packet and its `MetaTag`. -/
def arriveBfc (cfg : Config n) (s : State n) (inDev dev : Fin n) (q : ℕ) (p : Packet n)
    (bfcPause : Bool) : Checked (State n × Packet n) :=
  if q = 0 then .ok (s, p)
  else match s.flowTb dev p.fid with
    | none => .error .sendToDev
    | some size =>
      let s := s.setFlow dev p.fid (some (add32 size 1))
      let p := { p with counterIncr := bfcPause }
      if bfcPause then
        let count := add32 (s.pauseCounter inDev p.upstreamQ) 1
        let s := s.setPauseCounter inDev p.upstreamQ count
        .ok (if count = 1 then s.sendPfc cfg inDev p.upstreamQ true else s, p)
      else .ok (s, p)

/-- What each `fc_mode` does with a packet that goes on to its output queue. -/
def arriveMode (cfg : Config n) (s : State n) (inDev dev : Fin n) (q : ℕ) (p : Packet n)
    (bfcPause : Bool) : Checked (State n × Packet n) :=
  match cfg.fcMode with
  | .voqDstPfc => .ok (s.arriveVoqDstPfc cfg inDev dev q p, p)
  | .bfc => s.arriveBfc cfg inDev dev q p bfcPause
  | _ => .ok (s, p)

/-- `CheckVOQWin` holds the packet in a VOQ. -/
def holdVoq (s : State n) (dev : Fin n) (q : ℕ) (p : Packet n) : State n :=
  { s with
    held := s.held ++ [⟨dev, q, .voq, false, p⟩]
    voqBytes := add32 s.voqBytes p.size
    buffering := Function.update s.buffering p.dst (add32 (s.buffering p.dst) p.size) }

/-- `CheckVOQWin`, or `DoDequeueVOQ`, puts the packet into the egress cache. -/
def holdCache (s : State n) (dev : Fin n) (q : ℕ) (p : Packet n) : State n :=
  { s with
    held := s.held ++ [⟨dev, q, .cache, false, p⟩]
    egressCacheBytes :=
      Function.update s.egressCacheBytes dev (add32 (s.egressCacheBytes dev) p.size) }

/-- What `CheckVOQWin` decides: only data packets wait, in the cache only with per-port windows. -/
def checkVOQWin (cfg : Config n) (p : Packet n) (window : Window) : Window :=
  if cfg.fcMode = .floodgate ∧ cfg.useSwitchwin = true ∧ p.l3Prot = .udp then
    if window = .cache ∧ cfg.usePortWin = false then .pass else window
  else .pass

/-! ### Transmission -/

/-- The loop of `SwitchNotifyDequeue` that resumes every paused upstream of a destination. -/
def resumeDst (cfg : Config n) (dst : ℕ) (s : State n) (i : Fin n) : State n :=
  if s.paused i dst then (s.sendPfc cfg i dst false).setResume i dst else s

/-- The BFC part of `SwitchNotifyDequeue`. -/
def departBfc (cfg : Config n) (s : State n) (inDev dev : Fin n) (q : ℕ) (p : Packet n) :
    Checked (State n) :=
  if q = 0 then .ok s
  else match s.flowTb dev p.fid with
    | none => .error .switchNotifyDequeue
    | some size =>
      let s := s.setFlow dev p.fid (some (sub32 size 1))
      if p.counterIncr then
        let count := sub32 (s.pauseCounter inDev p.upstreamQ) 1
        let s := s.setPauseCounter inDev p.upstreamQ count
        .ok (if count = 0 then s.sendPfc cfg inDev p.upstreamQ false else s)
      else .ok s

/-- What each `fc_mode` does at the end of `SwitchNotifyDequeue`. -/
def departMode (cfg : Config n) (s : State n) (inDev dev : Fin n) (q : ℕ) (p : Packet n) :
    Checked (State n) :=
  match cfg.fcMode with
  | .voqDstPfc =>
    .ok (if q ≠ 0 ∧ s.checkVOQResume cfg inDev dev q p.dst = true then
      (List.finRange n).foldl (resumeDst cfg p.dst) s else s)
  | .bfc => s.departBfc cfg inDev dev q p
  | _ => .ok s

/-- `RemoveFromIngressAdmission` as `SwitchNotifyDequeue` calls it. -/
def releaseIngress (cfg : Config n) (s : State n) (inDev : Fin n) (q : ℕ) (p : Packet n) :
    State n :=
  if cfg.controlled q then s.removeFromIngressAdmission inDev (cfg.pfcFine inDev q p) p.size else s

/-- `SwitchNode::SwitchNotifyDequeue`. `flowId` stands for the uninitialised `FlowIdTag` of a packet
that carries none; `none` is a value that is no device. -/
def switchNotifyDequeue (cfg : Config n) (s : State n) (dev : Fin n) (q : ℕ) (p : Packet n)
    (flowId : Option (Fin n)) : Checked (State n) :=
  match p.l3Prot with
  | .switchAck | .pfc | .ci => .ok s
  | _ =>
    match p.inDev.or flowId with
    | none => .error .switchNotifyDequeue
    | some inDev => do
      let s ← (s.releaseIngress cfg inDev q p).removeFromEgressAdmission dev q p.size
      let s := s.subBytes inDev dev q p.size
      let s := if q ≠ 0 then s.subBuffering dev p.dst p.size else s
      let s := if cfg.controlled q then s.checkAndSendResume cfg inDev (cfg.pfcFine inDev q p)
        else s
      s.departMode cfg inDev dev q p

/-- Whether the `k`-th buffered packet is `it`, waits at `place`, and is the first of its queue
there. -/
def isFront (pifo : Bool) (s : State n) (place : Place) (k : ℕ) (it : Item n) : Bool :=
  decide (s.held[k]? = some it) && decide (it.place = place) && (pifo ||
    !(s.held.take k).any fun x => decide (x.place = place) && decide (x.dev = it.dev) &&
      decide (x.q = it.q))

/-- `QbbNetDevice::DequeueAndTransmit`, when round robin, pause flags and rate limiters pick `it`,
at position `k`, from the queues of the first level. -/
def dequeueAndTransmit (cfg : Config n) (s : State n) (k : ℕ) (it : Item n)
    (flowId : Option (Fin n)) : Checked (State n) :=
  if s.isFront cfg.pifo .queue k it && s.linkUp it.dev &&
      (decide (it.q < queueNum) || decide (cfg.fcMode ≠ .congestionIsolation)) then
    (s.popQueue k it).switchNotifyDequeue cfg it.dev it.q it.packet flowId
  else .ok s

/-- What a device sends: the position of a buffered packet, the packet, and what stands for its
`FlowIdTag`. -/
structure Sending (n : ℕ) where
  k : ℕ
  it : Item n
  flowId : Option (Fin n)

/-- The `DequeueAndTransmit` at the end of `SwitchSend`: nothing is sent by a device that is busy,
or has no packet it may send. -/
def transmitNow (cfg : Config n) (s : State n) (dev : Fin n) : Option (Sending n) →
    Checked (State n)
  | none => .ok s
  | some x => if x.it.dev = dev then s.dequeueAndTransmit cfg x.k x.it x.flowId else .ok s

/-! ### SendToDev -/

/-- `SendToDev` for a packet that goes on to its output queue, up to the `DequeueAndTransmit` of the
device. -/
def passToDev (cfg : Config n) (s : State n) (inDev dev : Fin n) (q : ℕ) (p : Packet n)
    (bfcPause : Bool) : Checked (State n) := do
  let s := s.addBytes inDev dev q p.size
  let s := if cfg.controlled q then s.checkAndSendPfc cfg inDev (cfg.pfcFine inDev q p) else s
  let (s, p) ← s.arriveMode cfg inDev dev q p bfcPause
  .ok (s.switchSend cfg dev q true p)

/-- `SendToDev` from the window check on, with what the device sends at once. -/
def forwardNow (cfg : Config n) (s : State n) (inDev dev : Fin n) (q : ℕ) (p : Packet n)
    (ch : Choice) (sent : Option (Sending n)) : Checked (State n) :=
  match checkVOQWin cfg p ch.window with
  | .voq => .ok (s.holdVoq dev q p)
  | .cache => .ok (s.holdCache dev q p)
  | .pass => do
    let s ← s.passToDev cfg inDev dev q p ch.bfcPause
    let s ← s.transmitNow cfg dev sent
    let _ ← s.doStatistics cfg
    .ok s

/-- The same with the transmission left to a step of its own. -/
abbrev forward (cfg : Config n) (s : State n) (inDev dev : Fin n) (q : ℕ) (p : Packet n)
    (ch : Choice) : Checked (State n) := s.forwardNow cfg inDev dev q p ch none

/-- Whether the packet goes no further than `SendToDev`: PFC frames stop in `QbbNetDevice::Receive`,
CI frames go to `ReceiveCI`, and a switch with windows takes SYNs and SwitchACKs itself. -/
def consumes (cfg : Config n) (p : Packet n) : Bool :=
  match p.l3Prot with
  | .pfc | .ci => true
  | .switchPsn | .switchAck => cfg.useSwitchwin
  | _ => false

/-- `SwitchNode::SendToDev` for a packet from `inDev`, with the device of the routing table, the
queue of `MatchQ`, and what that device sends at once. A PFC frame leaves its device by a step of
its own: `SwitchNotifyDequeue` returns for it before it does anything. -/
def sendToDevNow (cfg : Config n) (s : State n) (inDev dev : Fin n) (q : ℕ) (p : Packet n)
    (ch : Choice) (sent : Option (Sending n)) : Checked (State n) :=
  if consumes cfg p = true ∨ s.nQueue dev ≤ q then .ok s
  else if s.linkUp dev = false then .error .sendToDev
  else do
    let p := p.arrived inDev
    let s := s.matchFlow cfg dev q p
    if ← s.admits cfg inDev dev q p then
      if p.l3Prot = .switchAck then .error .sendToDev
      else ((s.chargeIngress cfg inDev q p).updateEgressAdmission dev q p.size).forwardNow cfg inDev dev q p ch sent
    else if cfg.fcMode = .pfcOff ∧ (p.l3Prot = .ack ∨ p.l3Prot = .sack) then
      (s.updateEgressAdmission dev q p.size).forwardNow cfg inDev dev q p ch sent
    else .ok s

/-- `SendToDev` as a step of a run, which leaves the transmission to a later step. -/
abbrev sendToDev (cfg : Config n) (s : State n) (inDev dev : Fin n) (q : ℕ) (p : Packet n)
    (ch : Choice) : Checked (State n) := s.sendToDevNow cfg inDev dev q p ch none

/-! ### The hierarchical round -/

/-- The body of the innermost loop of `DoHierQRR`, for a packet `CheckDequeueHierQ_CI` sends to
`nextQ`. -/
def hierMove (cfg : Config n) (s : State n) (k : ℕ) (it : Item n) (nextQ : ℕ) : Checked (State n) :=
  match s.isFront false .queue k it && decide (queueNum ≤ it.q) && decide (nextQ < s.nQueue it.dev),
      it.packet.inDev with
  | true, some inDev => do
    let s ← (s.popQueue k it).removeFromEgressAdmission it.dev it.q it.size
    let s := s.subBytes inDev it.dev it.q it.size
    match s.doEnqueue cfg it.dev nextQ true it.packet with
    | none => .error .doHierQRR
    | some s =>
      let s := (s.addBytes inDev it.dev nextQ it.size).updateEgressAdmission it.dev nextQ it.size
      .ok (if cfg.controlled nextQ then s.updateIngressAdmission cfg inDev nextQ it.size else s)
  | _, _ => .ok s

/-- A packet `DoHierQRR` moves, by its position, and the queue it goes to. -/
abbrev Move (n : ℕ) := ℕ × Item n × ℕ

/-- `SwitchNode::DoHierQRR`, as the moves of one round. -/
def doHierQRR (cfg : Config n) (s : State n) (moves : List (Move n)) : Checked (State n) :=
  if cfg.fcMode = .congestionIsolation then moves.foldlM
    (fun s m => s.hierMove cfg m.1 m.2.1 m.2.2) s
  else .ok s

/-! ### Floodgate -/

/-- The `k`-th buffered packet leaves its VOQ, with the counters of `UpdateBufferingCount`. -/
def popVoq (s : State n) (k : ℕ) (it : Item n) : State n :=
  { s with
    held := s.held.eraseIdx k
    voqBytes := sub32 s.voqBytes it.size
    buffering :=
      Function.update s.buffering it.packet.dst (sub32 (s.buffering it.packet.dst) it.size) }

/-- A VOQ lets its first packet go: `CheckAndSendOne`, then `DoDequeueVOQ`. -/
def releaseVoq (cfg : Config n) (s : State n) (k : ℕ) (it : Item n) (toCache : Bool) : State n :=
  if s.held[k]? = some it ∧ it.place = .voq then
    if cfg.usePortWin && toCache then (s.popVoq k it).holdCache it.dev it.q it.packet
    else (s.popVoq k it).switchSend cfg it.dev it.q false it.packet
  else s

/-- The `k`-th buffered packet leaves its egress cache. -/
def popCache (s : State n) (k : ℕ) (it : Item n) : State n :=
  { s with
    held := s.held.eraseIdx k
    egressCacheBytes :=
      Function.update s.egressCacheBytes it.dev (sub32 (s.egressCacheBytes it.dev) it.size) }

/-- `CheckAndSendCache` lets the first packet of an egress cache go. -/
def releaseCache (cfg : Config n) (s : State n) (k : ℕ) (it : Item n) : State n :=
  if s.held[k]? = some it ∧ it.place = .cache then
    (s.popCache k it).switchSend cfg it.dev it.q false it.packet
  else s

/-! ### Frames, new queues and link failure -/

/-- The control frames a switch generates besides PFC: CI signals, SwitchACKs, and SYNs. -/
def sendFrame (cfg : Config n) (s : State n) (dev : Fin n) (p : Packet n) : State n :=
  match p.l3Prot with
  | .ci => if cfg.fcMode = .congestionIsolation then s.switchSend cfg dev 0 false { p with inDev :=
      none } else s
  | .switchAck | .switchPsn =>
    if cfg.fcMode = .floodgate then s.switchSend cfg dev 0 false { p with inDev := none } else s
  | _ => s

/-- `BEgressQueue::RegisterNewQ`, with the `UpdateEgressAdmission` of 0 bytes that follows it. -/
def registerNewQ (s : State n) (dev : Fin n) : State n :=
  { s with
    nQueue := Function.update s.nQueue dev (s.nQueue dev + 1)
    egressLen := Function.update s.egressLen dev (max (s.egressLen dev) (s.nQueue dev + 1)) }

/-- Whether `TakeDown` drains the packet: `DequeueRR` reaches the queues of the first level, but for
the packets a rate limiter holds back, which can be the rest of a queue. -/
def drains (cfg : Config n) (dev : Fin n) (limited : Item n → Bool) (it : Item n) : Bool :=
  decide (it.dev = dev) && decide (it.place = .queue) && !limited it &&
    (decide (it.q < queueNum) || decide (cfg.fcMode ≠ .congestionIsolation))

/-- `QbbNetDevice::TakeDown` of a switch port. -/
def takeDown (cfg : Config n) (s : State n) (dev : Fin n) (limited : Item n → Bool) : State n :=
  { s with
    held := s.held.filter fun it => !drains cfg dev limited it
    bytesInQueue := fun i q => if i = dev then
      sub32 (s.bytesInQueue i q)
        (tally Item.size (fun it => drains cfg dev limited it && decide (it.q = q)) s.held)
      else s.bytesInQueue i q
    bytesInQueueTotal := Function.update s.bytesInQueueTotal dev
      (sub32 (s.bytesInQueueTotal dev) (tally Item.size (drains cfg dev limited) s.held))
    linkUp := Function.update s.linkUp dev false }

end State

end Buffer

end Pyrrha

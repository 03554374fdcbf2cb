import Pyrrha.Floodgate.Voq

/-!
`SwitchNode` and `SwitchMmu` as upstream: what happens to a data packet that arrives, and to what is
held back when a `SwitchACK` comes. A packet handed to an egress queue joins `sent`; its
transmission is not part of this model, and no window depends on it.
-/

namespace Pyrrha
open Lib

namespace Floodgate

namespace State

def doSwitchSend (s : State) (p : PacketUnit) : State := { s with sent := s.sent ++ [p] }

/-- The push to `m_egress_cache`. -/
def pushCache (s : State) (p : PacketUnit) : State :=
  { s with
    egressCache := Function.update s.egressCache p.outDev (s.egressCache p.outDev ++ [p])
    egressCacheBytes :=
      Function.update s.egressCacheBytes p.outDev (add32 (s.egressCacheBytes p.outDev) p.size) }

/-- Whether a packet goes through the egress cache. -/
def passesCache (cfg : Config) (s : State) (p : PacketUnit) : Bool :=
  !cfg.usePortWin || (s.checkEgressWin cfg p.outDev p.size && (s.egressCache p.outDev).isEmpty)

def doDequeueVOQ (cfg : Config) (s : State) (p : PacketUnit) : State :=
  if s.passesCache cfg p then (s.updateEgressWin cfg p.outDev p.size false).doSwitchSend p
    else s.pushCache p

/-- Where a packet passes to the egress: the absolute mode numbers it. -/
def tagPsn (cfg : Config) (s : State) (p : PacketUnit) : State × PacketUnit :=
  if cfg.absolutePsn then s.updateDataPSN cfg p.outDev p.dst p else (s, p)

/-! ### Arrival -/

/-- What `CheckVOQWin` does with a packet that has passed the window of its destination. -/
def passWin (cfg : Config) (s : State) (packet : PacketUnit) : Checked (State × PacketUnit × Bool) := do
  let s ← s.updateDstWin cfg packet.dst packet.size false
  let (s, packet) := s.tagPsn cfg packet
  if s.passesCache cfg packet then .ok (s.updateEgressWin cfg packet.outDev packet.size false,
    packet, true)
  else .ok (s.pushCache packet, packet, false)

/-- What `CheckVOQWin` does with a packet that has not: `GetVOQ`, `Enqueue` and
`UpdateBufferingCount`. -/
def holdVoq (cfg : Config) (s : State) (packet : PacketUnit) : Checked State :=
  match cfg.dst2group packet.dst with
  | some (.group g) => do
    let (G, voqId) ← (s.groups g).getVOQ (cfg.group g) packet.dst
    ((s.setGroup g G).enqueue g voqId packet).updateBufferingCount packet.dst packet.size true
  | _ => .error .getVOQ

/-- `CheckVOQWin` of a data packet with `adaptive_win` 0, where it does not call
`AdaptiveUpdateWin`; `true` lets it pass, with the tag it has got. -/
def checkVOQWin (cfg : Config) (s : State) (packet : PacketUnit) : Checked (State × PacketUnit × Bool) := do
  let ignore ← cfg.shouldIgnore packet.dst
  if ignore then .ok (s, packet, true)
  else do
    let (s, fits) ← s.checkDstWin cfg packet.dst packet.size
    if fits && decide (s.getBufferDst packet.dst = 0) then s.passWin cfg packet
    else do
      let s ← s.holdVoq cfg packet
      .ok (s, packet, false)

/-- `SendToDev` of a data packet, from its admission on. -/
def sendToDev (cfg : Config) (s : State) (packet : PacketUnit) : Checked State := do
  let (s, packet, passes) ← { s with admitted := s.admitted ++ [packet] }.checkVOQWin cfg packet
  if passes then .ok (s.doSwitchSend packet) else .ok s

/-! ### Release -/

/-- `SwitchMmu::VOQDequeueCallback`, with the packet and what it returns. -/
def mmuDequeue (cfg : Config) (s : State) (pkt : PacketUnit) : Checked (State × PacketUnit × ℕ) := do
  let (s, pkt) := s.tagPsn cfg pkt
  let s ← s.updateDstWin cfg pkt.dst pkt.size false
  let s ← s.updateBufferingCount pkt.dst pkt.size false
  .ok (s, pkt, s.getBufferDst pkt.dst)

def voqDequeueCallback (cfg : Config) (s : State) (g voqId : ℕ) (pkt : PacketUnit) :
    Checked (State × PacketUnit) :=
  if (s.groups g).findVOQId (cfg.group g) pkt.dst ≠ some voqId then .error .voqDequeueCallback
  else do
    let (s, pkt, buffering) ← s.mmuDequeue cfg pkt
    .ok (s.setGroup g ((s.groups g).release (cfg.group g) pkt.dst voqId buffering), pkt)

def checkAndSendOne (cfg : Config) (s : State) (g voqId : ℕ) : Checked (State × Bool) :=
  match s.pkts g voqId with
  | [] => .ok (s, false)
  | top :: rest => do
    let (s, fits) ← s.checkDstWin cfg top.dst top.size
    if fits then do
      let (s, top) ← (s.pop g voqId top.size rest).voqDequeueCallback cfg g voqId top
      .ok (s.doDequeueVOQ cfg top, true)
    else .ok (s, false)

/-- The loop of `VOQ::CheckAndSendAll`, at most `bound` times round. -/
def sendWhile (cfg : Config) (g voqId : ℕ) : ℕ → State → Checked State
  | 0, s => .ok s
  | bound + 1, s => do
    let (s, success) ← s.checkAndSendOne cfg g voqId
    if success then sendWhile cfg g voqId bound s else .ok s

/-- `VOQ::CheckAndSendAll`: every success takes a packet out of the VOQ. -/
def checkAndSendAll (cfg : Config) (s : State) (g voqId : ℕ) : Checked State :=
  sendWhile cfg g voqId (s.pkts g voqId).length s

def checkAndSendVOQ (cfg : Config) (s : State) (dst : ℕ) : Checked State :=
  match cfg.dst2group dst with
  | none => .error .shouldIgnore
  | some .ignore => .ok s
  | some (.group g) =>
    match (s.groups g).findVOQ (cfg.group g) dst with
    | some voqId => s.checkAndSendAll cfg g voqId
    | none => if s.getBufferDst dst = 0 then .ok s else .error .checkAndSendVOQ

/-- The first loop of `CheckAndSendVOQ()`, over the keys of `m_wins` in increasing order: `none` is
its early return, otherwise the VOQs left in `dstLeft`. -/
def firstRound (cfg : Config) : List ℕ → State → List (ℕ × ℕ) →
    Checked (State × Option (List (ℕ × ℕ)))
  | [], s, dstLeft => .ok (s, some dstLeft)
  | dst :: keys, s, dstLeft =>
    if 0 < s.winAt dst then
      match cfg.dst2group dst with
      | none => .error .shouldIgnore
      | some .ignore => .ok (s, none)
      | some (.group g) =>
        match (s.groups g).findVOQ (cfg.group g) dst with
        | none => firstRound cfg keys s dstLeft
        | some voqId => do
          let (s, success) ← s.checkAndSendOne cfg g voqId
          firstRound cfg keys s (if success then dstLeft ++ [(g, voqId)] else dstLeft)
    else firstRound cfg keys s dstLeft

/-- The second loop of `CheckAndSendVOQ()`, at most `bound` times round. -/
def roundRobin (cfg : Config) : ℕ → State → List (ℕ × ℕ) → Checked State
  | 0, s, _ => .ok s
  | _, s, [] => .ok s
  | bound + 1, s, (g, voqId) :: dstLeft => do
    let (s, success) ← s.checkAndSendOne cfg g voqId
    roundRobin cfg bound s (if success then dstLeft ++ [(g, voqId)] else dstLeft)

/-- How often the second loop can go round: every time it takes a packet, or strikes a VOQ off. -/
def rounds (s : State) (dstLeft : List (ℕ × ℕ)) : ℕ :=
  (dstLeft.map fun v => (s.pkts v.1 v.2).length + 1).sum

/-- A bound on the keys of `m_wins`: the ids of the hosts and of their ToRs. -/
def keyBound (cfg : Config) : ℕ := cfg.hostNum + cfg.hostNum / cfg.hostPerRack + 1

def checkAndSendVOQs (cfg : Config) (s : State) : Checked State := do
  let (s, left) ← firstRound cfg (List.range (keyBound cfg)) s []
  match left with
  | none => .ok s
  | some dstLeft => roundRobin cfg (s.rounds dstLeft) s dstLeft

/-- The body of the loop of `CheckAndSendCache`, for the first packet of a cache. -/
def sendCached (cfg : Config) (s : State) (outDev : ℕ) (top : PacketUnit) (rest : List PacketUnit) :
    State :=
  { s.updateEgressWin cfg outDev top.size false with
    egressCache := Function.update s.egressCache outDev rest
    egressCacheBytes :=
      Function.update s.egressCacheBytes outDev
        (sub32 (s.egressCacheBytes outDev) top.size) }.doSwitchSend top

/-- The loop of `CheckAndSendCache` over the packets of the cache. -/
def drainCache (cfg : Config) (outDev : ℕ) : List PacketUnit → State → State
  | [], s => s
  | top :: rest, s =>
    if s.checkEgressWin cfg outDev top.size then drainCache cfg outDev rest
      (s.sendCached cfg outDev top rest) else s

def checkAndSendCache (cfg : Config) (s : State) (outDev : ℕ) : State :=
  if cfg.usePortWin then drainCache cfg outDev (s.egressCache outDev) s else s

/-! ### SYN recovery -/

def setAckTime (s : State) (dev dst : ℕ) : State :=
  { s with lstrcvAckTime := update₂ s.lstrcvAckTime dev dst s.now }

/-- The times `UpdateSynTime` takes down. -/
def noteAckTimes (cfg : Config) (s : State) (dev dst : ℕ) (acktag : ℕ → ℕ) : State :=
  match cfg.ackMode with
  | .switchDstCredit => s.setAckTime dev dst
  | .switchIngressCredit =>
    { s with lstrcvAckTime := fun i d =>
        if i = dev ∧ d < cfg.hostNum ∧ 0 < acktag d then s.now else s.lstrcvAckTime i d }
  | .hostPerPacketAck => s

/-- The start of the timer of a device, unless it runs. -/
def startTimer (cfg : Config) (s : State) (dev : ℕ) : State :=
  if (s.synTimeoutEvent dev).isNone then
    { s with synTimeoutEvent := Function.update s.synTimeoutEvent dev (some (s.now +
      cfg.synTimeout)) }
  else s

def updateSynTime (cfg : Config) (s : State) (dev dst : ℕ) (acktag : ℕ → ℕ) : State :=
  if cfg.absolutePsn = false ∨ cfg.synTimeout = 0 then s
  else (s.noteAckTimes cfg dev dst acktag).startTimer cfg dev

def getSwitchSYNTag (cfg : Config) (s : State) (dev : ℕ) : SynTag := fun i =>
  if i < cfg.hostNum ∧ s.rcvAckPsn dev i < s.nxtDataPsn dev i ∧
    s.now ≤ s.lstrcvAckTime dev i + cfg.synTimeout then
    (s.rcvAckPsn dev i, s.nxtDataPsn dev i)
  else (0, 0)

/-- Whether `GetPacketSize` of a SYN tag is positive: it counts the entries with an acknowledged
PSN. -/
def synHasSize (cfg : Config) (syntag : SynTag) : Bool := (List.range cfg.hostNum).any fun i =>
    decide (0 < (syntag i).1)

def synTimeout (cfg : Config) (s : State) (dev : ℕ) : State :=
  let syntag := s.getSwitchSYNTag cfg dev
  let s := if synHasSize cfg syntag then { s with synSent := s.synSent ++ [(dev, syntag)] } else s
  { s with synTimeoutEvent := Function.update s.synTimeoutEvent dev (some (s.now +
    cfg.synTimeout)) }

/-! ### SwitchACK -/

/-- The window part of `ResumeVOQWin` for the destination `dst` in DST mode and for the ACKs of
hosts. -/
def resumeDst (cfg : Config) (s : State) (acked dst inDev : ℕ) : Checked State :=
  let resume := acked % 2 ^ 32
  let row := cfg.psnRow inDev dst
  if cfg.absolutePsn then
    (if s.rcvAckPsn row dst < resume then s.setRcvAck row dst acked else s).updateWin cfg dst
      0 inDev true
  else s.updateWin cfg dst resume inDev true

/-- The part of `ResumeVOQWin` that depends on the mode: the windows, then the VOQs. -/
def resumeWindows (cfg : Config) (s : State) (acktag : ℕ → ℕ) (dst inDev : ℕ) : Checked State :=
  match cfg.ackMode with
  | .switchIngressCredit => do
    let s ← s.recoverWin cfg acktag inDev
    s.checkAndSendVOQs cfg
  | .switchDstCredit | .hostPerPacketAck => do
    let s ← s.resumeDst cfg (acktag 0) dst inDev
    s.checkAndSendVOQ cfg dst

/-- `ResumeVOQWin`, of a tag that came through `inDev` from the source `dst`; `true` keeps the
packet. -/
def resumeVOQWin (cfg : Config) (s : State) (acktag : ℕ → ℕ) (dst inDev : ℕ) : Checked (State × Bool) := do
  let s ← (s.updateSynTime cfg (cfg.psnRow inDev dst) dst acktag).resumeWindows cfg acktag dst inDev
  .ok (s.checkAndSendCache cfg inDev, decide (cfg.ackMode ≠ .hostPerPacketAck))

end State

end Floodgate

end Pyrrha

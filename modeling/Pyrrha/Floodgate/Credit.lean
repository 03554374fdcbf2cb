import Mathlib.Data.List.Defs
import Mathlib.Data.Rat.Init
import Pyrrha.Floodgate.Window
import Pyrrha.Lib.Checked
import Pyrrha.Lib.Earliest

/-!
What a Floodgate switch owes its upstream switches: the credits `SwitchNotifyDequeue` counts, the
`SwitchACK`s that return them, and the one timer that stands for the last send times of all of them.
-/

namespace Pyrrha
open Lib

namespace Floodgate

namespace Credit

/-- Settings of a switch as downstream. `interval` is `switch_credit_interval`, a `double` in
microseconds, and `ackThM` is `switch_ack_th_m`, which delays `SwitchACK`s unless it is 0.
`deviceNum` is `m_devices.size()`. -/
structure Config extends Floodgate.Config where
  isToR : Bool
  useSwitchwin : Bool
  deviceNum : ℕ
  deviceNum_pos : 0 < deviceNum
  torNum : ℕ
  torNum_pos : 0 < torNum
  hostNum_pos : 0 < hostNum
  byteCounter : ℕ
  ackThM : ℚ
  thAck : ℕ
  interval : ℚ

/-- The pending `m_creditTimer`: `CreditTimeout(dev, dst)` at `due`. -/
structure CreditTimer where
  due : ℕ
  dev : ℕ
  dst : ℕ
  deriving DecidableEq, Repr

/-- A packet at `SwitchNotifyDequeue`, with its `SwitchIngressPSNTag`. -/
structure Dequeued (cfg : Config) where
  udp : Bool
  sip : Fin cfg.hostNum
  dip : Fin cfg.hostNum
  size : ℕ
  inDev : ℕ
  ingressPsn : Option ℕ

/-- State of a switch as downstream; times are in nanoseconds. `m_ingressDstCredits` are the
`credits` of the relative mode, and the three PSN tables are those of the absolute mode. -/
structure State where
  now : ℕ := 0
  credits : ℕ → ℕ → Option ℕ := fun _ _ => none
  ingressLastTime : ℕ → ℕ → ℕ := fun _ _ => 0
  creditTimer : Option CreditTimer := none
  rcvDataPsn : ℕ → ℕ → ℕ := fun _ _ => 0
  nxtAckPsn : ℕ → ℕ → ℕ := fun _ _ => 0
  lstAckPsn : ℕ → ℕ → ℕ := fun _ _ => 0
  buffering : ℕ → ℕ := fun _ => 0
  byteCreditCounter : ℕ := 0
  timeoutCreditCounter : ℕ := 0

/-- The asserts of the modelled functions, by the function that makes them. -/
inductive Assert where
  | shouldIgnore
  | removePacketTag
  | addCreditCounter
  | updateIngressLastSendTime
  | resetCreditTimer
  | creditTimeout
  | getIngressDstCreditCounter
  | checkIngressCreditCounter
  | cleanIngressDstCreditCounter
  | cleanIngressCreditCounter
  | getSwitchACKTag
  | sendAccSwitchACK
  | sendSwitchACK
  deriving DecidableEq, Repr

abbrev Checked (α : Type) : Type := Except Assert α

/-- `MicroSeconds`, whose parameter is a `uint64_t`, in nanoseconds. -/
def microSeconds (us : ℚ) : ℕ := us.floor.toNat * 1000

/-- The indices in the order of the scan of `ResetCreditTimer`. -/
def Config.entries (cfg : Config) : List (ℕ × ℕ) :=
  (List.range switchScale).flatMap fun i => (List.range cfg.hostNum).map fun j => (i, j)

/-- The row a packet's credits are counted in. -/
def Config.creditId (cfg : Config) (p : Dequeued cfg) : ℕ :=
  if cfg.resetOnlyToR then p.sip / cfg.hostPerRack else p.inDev

/-- All upstream switches of a switch. -/
def Config.allUpstreams (cfg : Config) : ℕ := if cfg.resetOnlyToR then cfg.torNum else cfg.deviceNum

/-- The number of upstream switches a dequeue looks at. -/
def Config.upstreamNum (cfg : Config) : ℕ := if 0 < cfg.ackThM then cfg.allUpstreams else 1

def nextUpstream (upstreamNum creditId : ℕ) : ℕ := (creditId + 1) % upstreamNum

namespace State

/-! ### The timer -/

def entryTime (s : State) (entry : ℕ × ℕ) : ℕ := s.ingressLastTime entry.1 entry.2

def resetCreditTimer (cfg : Config) (s : State) : Checked State :=
  if cfg.interval = 0 then .ok s
  else
    match scanEarliest s.entryTime (s.now + 10 ^ 9) cfg.entries with
    | (_, none) => .ok { s with creditTimer := none }
    | (minTime, some (dev, dst)) =>
      if s.now ≤ minTime + microSeconds cfg.interval then
        .ok { s with creditTimer := some ⟨s.now + (minTime + microSeconds cfg.interval - s.now),
          dev, dst⟩ }
      else .error .resetCreditTimer

def setLastTime (s : State) (dev dst : ℕ) : State :=
  { s with ingressLastTime := update₂ s.ingressLastTime dev dst s.now }

def updateIngressLastSendTime (cfg : Config) (s : State) (dev dst : ℕ) : Checked State :=
  if dev < switchScale then (s.setLastTime dev dst).resetCreditTimer cfg
    else .error .updateIngressLastSendTime

/-! ### The counters -/

def addCreditCounter (s : State) (dev dst bytes : ℕ) : Checked State :=
  if dev < switchScale then
    .ok { s with
      credits := update₂ s.credits dev dst (some (add32 ((s.credits dev dst).getD 0) bytes)) }
  else .error .addCreditCounter

/-- Whether a `SwitchACK` for `dst` is not delayed. -/
def notDelayed (cfg : Config) (s : State) (dst : ℕ) : Bool :=
  cfg.ackThM = 0 || s.buffering dst ≤ cfg.thAck

def getIngressDstCreditCounter (cfg : Config) (s : State) (dev dst : ℕ) : Checked ℕ :=
  if dev < switchScale then
    if s.notDelayed cfg dst then
      if cfg.absolutePsn then
        if s.lstAckPsn dev dst ≤ s.nxtAckPsn dev dst then .ok
          ((s.nxtAckPsn dev dst - s.lstAckPsn dev dst) % 2 ^ 32)
        else .error .getIngressDstCreditCounter
      else .ok ((s.credits dev dst).getD 0)
    else .ok 0
  else .error .getIngressDstCreditCounter

def addCounter (cfg : Config) (s : State) (dev sum i : ℕ) : Checked ℕ :=
  (s.getIngressDstCreditCounter cfg dev i).map (add32 sum)

def checkIngressCreditCounter (cfg : Config) (s : State) (dev th : ℕ) : Checked Bool :=
  if dev < switchScale then
    ((List.range cfg.hostNum).foldlM (s.addCounter cfg dev) 0).map fun sum => decide (th ≤ sum)
  else .error .checkIngressCreditCounter

/-- The entry `GetSwitchACKTag` sets for host `i`; one that is not set is 0. -/
def ackEntry (cfg : Config) (s : State) (dev i : ℕ) : ℕ :=
  if cfg.absolutePsn then
    if i < cfg.hostNum ∧ s.lstAckPsn dev i < s.nxtAckPsn dev i ∧
      s.notDelayed cfg i then s.nxtAckPsn dev i else 0
  else if s.notDelayed cfg i then (s.credits dev i).getD 0 else 0

def getSwitchACKTag (cfg : Config) (s : State) (dev : ℕ) : Checked (ℕ → ℕ) :=
  if dev < switchScale then .ok (s.ackEntry cfg dev) else .error .getSwitchACKTag

def cleanIngressDstCreditCounter (cfg : Config) (s : State) (dev dst ackPsn : ℕ) : Checked State :=
  if cfg.absolutePsn then .ok { s with lstAckPsn := update₂ s.lstAckPsn dev dst ackPsn }
  else if s.credits dev dst =
    some ackPsn then .ok { s with credits := update₂ s.credits dev dst (some 0) }
  else .error .cleanIngressDstCreditCounter

/-- The row of `dev` after the entries of the tag have been acknowledged. -/
def ackRow (cfg : Config) (s : State) (dev : ℕ) (acktag : ℕ → ℕ) (i : ℕ) : ℕ :=
  if i < cfg.hostNum ∧ 0 < acktag i then acktag i else s.lstAckPsn dev i

/-- The counters of `dev` without what the tag returns. -/
def subtractRow (s : State) (dev : ℕ) (acktag : ℕ → ℕ) (i : ℕ) : Option ℕ :=
  (s.credits dev i).map (· - acktag i)

def cleanIngressCreditCounter (cfg : Config) (s : State) (dev : ℕ) (acktag : ℕ → ℕ) :
    Checked State :=
  if dev < switchScale then
    if cfg.absolutePsn then .ok
      { s with lstAckPsn := Function.update s.lstAckPsn dev (s.ackRow cfg dev acktag) }
    else if cfg.ackThM = 0 then
      .ok { s with credits := Function.update s.credits dev fun _ => none }
    else if ∀ i < cfg.hostNum, ∀ credit ∈ s.credits dev i, acktag i ≤ credit then
      .ok { s with credits := Function.update s.credits dev (s.subtractRow dev acktag) }
    else .error .cleanIngressCreditCounter
  else .error .cleanIngressCreditCounter

/-! ### Sending -/

/-- `SendAccSwitchACK` of a switch; the packet leaves through a device. -/
def sendAccSwitchACK (cfg : Config) (s : State) (dev : ℕ) (acktag : ℕ → ℕ) : Checked State :=
  if cfg.ackMode = .switchIngressCredit then do
    let s ← s.cleanIngressCreditCounter cfg dev acktag
    s.updateIngressLastSendTime cfg dev 0
  else .error .sendAccSwitchACK

def sendSwitchACK (cfg : Config) (s : State) (inDev dst size : ℕ) : Checked State :=
  if cfg.ackMode = .switchDstCredit then do
    let s ← s.cleanIngressDstCreditCounter cfg inDev dst size
    s.updateIngressLastSendTime cfg inDev dst
  else .error .sendSwitchACK

/-- What a `SwitchACK` for `dst` says when `credit` is due. -/
def pippyback (cfg : Config) (s : State) (dev dst credit : ℕ) : ℕ :=
  if cfg.absolutePsn then s.nxtAckPsn dev dst else credit

def countByteCredit (s : State) : State := { s with byteCreditCounter := s.byteCreditCounter + 1 }

def countTimeoutCredit (s : State) : State :=
  { s with timeoutCreditCounter := s.timeoutCreditCounter + 1 }

/-- All that is due to an ingress goes back. -/
def sendIngressCredits (cfg : Config) (s : State) (dev : ℕ) : Checked State := do
  let acktag ← s.getSwitchACKTag cfg dev
  s.sendAccSwitchACK cfg dev acktag

def creditTimeout (cfg : Config) (s : State) (dev dst : ℕ) : Checked State :=
  if dev < switchScale ∧ dst < cfg.hostNum ∧ cfg.ackMode ≠ .hostPerPacketAck then
    match cfg.ackMode with
    | .switchIngressCredit => do
      let due ← s.checkIngressCreditCounter cfg dev 1
      if due then (s.sendIngressCredits cfg dev).map countTimeoutCredit
        else s.updateIngressLastSendTime cfg dev dst
    | _ => do
      let credit ← s.getIngressDstCreditCounter cfg dev dst
      if 0 < credit then (s.sendSwitchACK cfg dev dst (s.pippyback cfg dev dst credit)).map countTimeoutCredit
      else s.updateIngressLastSendTime cfg dev dst
  else .error .creditTimeout

/-! ### Dequeues -/

/-- The last send time is initialized at the first dequeue. -/
def initLastTime (cfg : Config) (s : State) (dev dst : ℕ) : Checked State :=
  if s.ingressLastTime dev dst = 0 then s.updateIngressLastSendTime cfg dev dst else .ok s

/-- What a dequeue returns to the upstream `creditId` if it is at least `th`. -/
def sendCredits (cfg : Config) (th dst : ℕ) (s : State) (creditId : ℕ) : Checked State :=
  match cfg.ackMode with
  | .switchIngressCredit => do
    let due ← s.checkIngressCreditCounter cfg creditId th
    if due then (s.sendIngressCredits cfg creditId).map countByteCredit else .ok s
  | .switchDstCredit => do
    let credit ← s.getIngressDstCreditCounter cfg creditId dst
    if th ≤ credit then
      (s.sendSwitchACK cfg creditId dst (s.pippyback cfg creditId dst credit)).map countByteCredit
    else .ok s
  | .hostPerPacketAck => .ok s

/-- One upstream of the loop that checks and sends `SwitchACK`. -/
def checkUpstream (cfg : Config) (dst : ℕ) (s : State) (creditId : ℕ) : Checked State :=
  match cfg.ackMode with
  | .switchIngressCredit => do
    let s ← s.initLastTime cfg creditId 0
    s.sendCredits cfg cfg.byteCounter dst creditId
  | .switchDstCredit => do
    let s ← s.initLastTime cfg creditId dst
    s.sendCredits cfg cfg.byteCounter dst creditId
  | .hostPerPacketAck => .ok s

/-- The bytes of a packet are counted, or its PSN is. -/
def countDequeue (cfg : Config) (s : State) (p : Dequeued cfg) : Checked State :=
  if cfg.absolutePsn then
    match p.ingressPsn with
    | some psn =>
      let nxt := max psn (s.nxtAckPsn (cfg.creditId p) p.dip)
      .ok { s with nxtAckPsn := update₂ s.nxtAckPsn (cfg.creditId p) p.dip nxt }
    | none => .error .removePacketTag
  else s.addCreditCounter (cfg.creditId p) p.dip p.size

/-- When no credits were sent and no timer runs, what is left goes back with the last packet of the
VOQ. The loop goes on from the upstream the one before has stopped at. -/
def sendLeft (cfg : Config) (counter : ℕ) (p : Dequeued cfg) (s : State) : Checked State :=
  if s.byteCreditCounter = counter ∧ 1 < cfg.byteCounter ∧ cfg.interval = 0 ∧
    s.buffering p.dip = 0 then
    let creditId := (nextUpstream cfg.upstreamNum)^[cfg.upstreamNum] (cfg.creditId p)
    (List.iterate (nextUpstream cfg.allUpstreams) creditId cfg.allUpstreams).foldlM
      (sendCredits cfg 1 p.dip) s
  else .ok s

def creditDequeue (cfg : Config) (s : State) (p : Dequeued cfg) : Checked State := do
  let s ← s.countDequeue cfg p
  let upstreams := List.iterate (nextUpstream cfg.upstreamNum) (cfg.creditId p) cfg.upstreamNum
  let t ← upstreams.foldlM (checkUpstream cfg p.dip) s
  t.sendLeft cfg s.byteCreditCounter p

/-- The Floodgate part of `SwitchNotifyDequeue`: the ToR of the source sends no `SwitchACK`. -/
def switchNotifyDequeue (cfg : Config) (s : State) (p : Dequeued cfg) : Checked State :=
  if cfg.useSwitchwin && p.udp then
    match cfg.shouldIgnore p.sip with
    | .ok ignore => if !cfg.isToR || !ignore then s.creditDequeue cfg p else .ok s
    | .error _ => .error .shouldIgnore
  else .ok s

end State

end Credit

end Floodgate

end Pyrrha

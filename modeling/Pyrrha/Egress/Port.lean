import Pyrrha.Egress.Queue

/-!
A switch port and everything that asks its `BEgressQueue` for an access: arrivals in every
`fc_mode`, frames, PFC, transmissions, queues added at run time and the hierarchical round. A queue
id is a constant, a priority group, a destination or QP, or comes from a table in which an earlier
call has put it.
-/

namespace Pyrrha
open Lib

namespace Egress

open Buffer (FcMode QueueChoice getUsableQ)

/-- Settings of a port: `fc_mode`, `m_pfc_fine` of the device, `pfc_mode` of `SwitchMmu` for it, and
the rest of what its calls read. -/
structure Settings where
  fcMode : FcMode
  pfcFine : PauseGran
  pfcMode : PauseGran
  isLastHop : Bool
  ackHighPrio : Bool
  pauseTime : ℕ
  pfcSize : ℕ

/-- What `SetPFCCtrl`, `SetPriority` and `SetRateLimiter` are given, with what the configuration
makes sure of: an element for each of the first queues, and classes of these queues. -/
structure Layout where
  pfcCtrls : List Bool
  priorities : List (List ℕ)
  rateLimiters : List (Option (ℕ → ℕ))
  pfcCtrls_length : pfcCtrls.length = queueNum
  rateLimiters_length : rateLimiters.length = queueNum
  classes : priorities ≠ []
  members : ∀ cls ∈ priorities, ∀ i ∈ cls, i < queueNum

namespace Layout

/-- The default of the configuration: queue 0, then the others. -/
def twoClasses (defaultQueuePfc : Bool) : Layout where
  pfcCtrls := false :: List.replicate 7 defaultQueuePfc
  priorities := [[0], [1, 2, 3, 4, 5, 6, 7]]
  rateLimiters := List.replicate queueNum none
  pfcCtrls_length := rfl
  rateLimiters_length := rfl
  classes := nofun
  members := by decide

/-- The classes of `FC_VOQ_DSTPFC` and, with a limiter of the token queue, of the token modes. -/
def threeClasses (limiter : Option (ℕ → ℕ)) (defaultQueuePfc : Bool) : Layout where
  pfcCtrls := false :: false :: List.replicate 6 defaultQueuePfc
  priorities := [[0], [1], [2, 3, 4, 5, 6, 7]]
  rateLimiters := none :: limiter :: List.replicate 6 none
  pfcCtrls_length := rfl
  rateLimiters_length := rfl
  classes := nofun
  members := by decide

end Layout

/-- A port. `qAssign` are the `q_assign` of `m_flow_tb` and `oportCiq` the `oport_ciq` of the
congestion entries for it. `held` are the packets that wait in a VOQ or an egress cache of
Floodgate, with the queue matched on arrival. -/
structure Port where
  queue : BEgressQueue
  qAssign : ℕ → Option ℕ := fun _ => none
  oportCiq : Spot → Option ℕ := fun _ => none
  held : List (Packet × ℕ) := []

/-- What `SendToDev` does with a packet between `MatchQ` and `DoSwitchSend`: the admission control
drops it, or `CheckVOQWin` holds it, or neither. -/
inductive Verdict where
  | drop | hold | pass
  deriving DecidableEq, Repr

/-- An arrival for a port: the hash of the flow, the spots `MatchNextCongestionRoot` compares in the
order of its loop, and what the flow table says. -/
structure Arrival where
  packet : Packet
  fid : ℕ
  roots : List Spot
  choice : QueueChoice
  verdict : Verdict

/-- The reasons of a PFC frame: the ingress counters of `CheckAndSendPfc` and `CheckAndSendResume`,
with the queue and destination of the packet; the VOQ of a destination; and the pause counter of an
upstream queue. -/
inductive PfcCause where
  | ingress (qIndex dst : ℕ)
  | destination (dst : ℕ)
  | upstream (upstreamQ : ℕ)

/-- The calls that reach the queues of a port. `frame` is a packet that the switch itself sends,
`release` one that Floodgate has held, `receivePause` a pause frame for a destination, `receiveCI` a
pause or merge signal, and `checkRelease` the test of a CIQ in `CheckAndSendDealloc` and
`ReleaseMergeCIQEntry`, `quiet` when nothing else keeps the CIQ. -/
inductive Request where
  | arrive (env : Env) (a : Arrival)
  | frame (p : Packet)
  | release (k : ℕ)
  | dequeue (env : Env)
  | sendPfc (cause : PfcCause) (pause : Bool)
  | receivePause (dst : ℕ)
  | receiveCI (root : Spot) (hop : ℕ)
  | checkRelease (root : Spot) (quiet : Bool)
  | hierMove (env : Env) (level prio i : ℕ) (roots : List Spot)

/-! ### The code -/

def matchDefaultQ (cfg : Settings) (p : Packet) : ℕ :=
  match p.l3Prot with
  | .switchPsn | .switchAck | .qcn | .pfc | .req => 0
  | .nack | .ack | .sack => if cfg.ackHighPrio then 0 else p.tknPg
  | .token | .tokenAck => p.tknPg
  | .tcp => 1
  | .udp | .ci => p.udpPg

/-- The packet that `QbbNetDevice::SendPfc` builds. -/
def pfcFrame (cfg : Settings) (header : PauseHeader) : Packet where
  l3Prot := .pfc
  udpPg := 0
  tknPg := 0
  dip := 2 ^ 32 - 1
  size := cfg.pfcSize
  qpid := none
  rank := none
  schTag := false
  pfc := some header

/-- `QbbNetDevice::SendPfc`; `pause` is type 0. -/
def sendPfc (cfg : Settings) (q : BEgressQueue) (qIndex : ℕ) (pause : Bool) : Except Fault BEgressQueue := do
  let qLen ← q.getNBytes qIndex
  q.enqueue (pfcFrame cfg ⟨if pause then cfg.pauseTime else 0, qLen, qIndex⟩) 0

/-- The `qIndex` that `SendPfc` is called with, when it is called. -/
def PfcCause.index (cfg : Settings) : PfcCause → Option ℕ
  | .ingress qIndex dst =>
      if qIndex < queueNum then some (if cfg.pfcMode = .dst then dst else qIndex) else none
  | .destination dst => if cfg.fcMode = .voqDstPfc then some dst else none
  | .upstream upstreamQ => if cfg.fcMode = .bfc then some upstreamQ else none

namespace Port

/-- A configured port without packets. -/
def initial (cfg : Settings) (layout : Layout) (maxBytes : ℕ) (pifo : Bool) (rateLimiterMode : ℕ) :
    Port where
  queue :=
    let q : BEgressQueue :=
      { maxBytes, pifo, useHierQ := cfg.fcMode = .congestionIsolation, rateLimiterMode }
    ((q.setPfcCtrl layout.pfcCtrls).setPriority layout.priorities).setRateLimiter
      layout.rateLimiters

/-- The CIQ of the entry that `MatchNextCongestionRoot` finds. -/
def matchRoot (s : Port) (roots : List Spot) : Option ℕ := roots.findSome? s.oportCiq

/-- The BFC part of `MatchQ` when the flow needs a queue. -/
def assign (s : Port) (fid : ℕ) (c : QueueChoice) : Port × ℕ :=
  let usable := getUsableQ c.usedQ
  let q := if queueNum ≤ usable then c.random % (queueNum - 1) + 1 else usable
  ({ s with qAssign := Function.update s.qAssign fid (some q) }, q)

def matchQ (cfg : Settings) (s : Port) (env : Env) (a : Arrival) : Except Fault (Port × ℕ) :=
  let qIndex := matchDefaultQ cfg a.packet
  if qIndex = 0 then .ok (s, 0)
  else match cfg.fcMode with
    | .congestionIsolation => .ok (s, (s.matchRoot a.roots).getD qIndex)
    | .voqDstPfc =>
      let qIndex := if a.packet.schTag then 2 else 1
      if cfg.isLastHop then .ok (s, qIndex)
      else match s.queue.dstQMap ((env.ip2id a.packet.dip).getD 0) with
        | none => .ok (s, qIndex)
        | some voqid =>
          if s.queue.bytesInQueue.length ≤ voqid then .error .assertion
          else do
            let bytes ← readAt (.outOfRange .bytesInQueue) s.queue.bytesInQueue voqid
            .ok (s, if env.paused voqid || decide (bytes ≠ 0) then voqid else qIndex)
    | .bfc =>
      match s.qAssign a.fid with
      | none => .ok (s.assign a.fid a.choice)
      | some q => .ok (if a.choice.expired then s.assign a.fid a.choice else (s, q))
    | .pfc | .floodgate | .pfcOff => .ok (s, qIndex)

/-- `SendToDev`, from `MatchQ` to `DoSwitchSend`. -/
def arrive (cfg : Settings) (s : Port) (env : Env) (a : Arrival) : Except Fault Port := do
  let (s, qIndex) ← s.matchQ cfg env a
  match a.verdict with
  | .drop => .ok s
  | .hold => .ok { s with held := s.held ++ [(a.packet, qIndex)] }
  | .pass => (s.queue.enqueue a.packet qIndex).map fun queue => { s with queue }

/-- A queue that `DoHierQRR` passes: the `i`-th of class `prio` of a level. -/
def hierQueue (s : Port) (level prio i : ℕ) : Option ℕ :=
  if 0 < level ∧ level ≤ maxHop then (s.queue.priorities level)[prio]?.bind (·[i]?) else none

/-- The turn of one queue in `DoHierQRR`, with `CheckDequeueHierQ_CI`. -/
def hierMove (cfg : Settings) (s : Port) (env : Env) (qIndex : ℕ) (roots : List Spot) : Except Fault Port := do
  let packets ← readAt (.outOfRange .queues) s.queue.queues qIndex
  if packets = [] ∨ env.paused qIndex then .ok s
  else
    let (q, p) ← s.queue.pop qIndex
    match ← q.doEnqueue p ((s.matchRoot roots).getD (matchDefaultQ cfg p)) with
    | none => .error .assertion
    | some queue => .ok { s with queue }

/-- One call. Calls that the `fc_mode` does not make leave the port as it is. -/
def step (cfg : Settings) (s : Port) : Request → Except Fault Port
  | .arrive env a =>
      if a.verdict = .hold ∧ cfg.fcMode ≠ .floodgate then .ok s else s.arrive cfg env a
  | .frame p => (s.queue.enqueue p 0).map fun queue => { s with queue }
  | .release k =>
    match s.held[k]? with
    | none => .ok s
    | some (p, qIndex) =>
        (s.queue.enqueue p qIndex).map fun queue => { s with queue, held := s.held.eraseIdx k }
  | .dequeue env => (s.queue.doDequeueRR cfg.pfcFine env).map fun r => { s with queue := r.1 }
  | .sendPfc cause pause =>
    match cause.index cfg with
    | none => .ok s
    | some qIndex => (sendPfc cfg s.queue qIndex pause).map fun queue => { s with queue }
  | .receivePause dst =>
    if cfg.fcMode = .voqDstPfc then (s.queue.registerVOQ dst).map fun r =>
      { s with queue := r.1 } else .ok s
  | .receiveCI root hop =>
    if cfg.fcMode = .congestionIsolation ∧ root.portId ≠ noPort ∧ s.oportCiq root = none then
      if hop = 0 then .error .assertion
      else (s.queue.registerCIQ hop).map fun r =>
        { s with queue := r.1, oportCiq := Function.update s.oportCiq root (some r.2) }
    else .ok s
  | .checkRelease root quiet =>
    match s.oportCiq root with
    | none => .ok s
    | some ciq =>
      if s.queue.bytesInQueue.length ≤ ciq then .error .assertion
      else (s.queue.getNBytes ciq).map fun bytes =>
        if bytes = 0 ∧ quiet then { s with oportCiq := Function.update s.oportCiq root none } else s
  | .hierMove env level prio i roots =>
    match if cfg.fcMode = .congestionIsolation then s.hierQueue level prio i else none with
    | none => .ok s
    | some qIndex => s.hierMove cfg env qIndex roots

/-- The ports of the runs from a configured port. -/
inductive Reachable (cfg : Settings) : Port → Prop where
  | initial (layout : Layout) (maxBytes : ℕ) (pifo : Bool) (rateLimiterMode : ℕ) :
    Reachable cfg (initial cfg layout maxBytes pifo rateLimiterMode)
  | step {s t : Port} {r : Request} : Reachable cfg s → s.step cfg r = .ok t → Reachable cfg t

end Port

end Egress

end Pyrrha

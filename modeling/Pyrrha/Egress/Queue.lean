import Mathlib.Data.List.Rotate
import Pyrrha.Buffer.FlowTable
import Pyrrha.Lib.Heap
import Pyrrha.Lib.Indexed

/-!
`BEgressQueue`, the queues of a port, with each of its vectors as a list of its own: an access
outside a vector is an error that names the vector.
-/

namespace Pyrrha
open Lib

namespace Egress

/-- `Settings::PAUSE_GRAN`. -/
inductive PauseGran where
  | off | pg | dst | qp | spot | queue
  deriving DecidableEq, Repr

/-- The vectors of a `BEgressQueue`; `priorities` and `rrlasts` are those of one level. -/
inductive Vec where
  | queues | bytesInQueue | pfcCtrls | rateLimiters | nxtAvails | rateLimiting | priorities | rrlasts
  deriving DecidableEq, Repr

/-- What stops a call: an access outside a vector, or an assert. -/
inductive Fault where
  | outOfRange (v : Vec)
  | assertion
  deriving DecidableEq, Repr

structure PauseHeader where
  time : ℕ
  qLen : ℕ
  qIndex : ℕ
  deriving DecidableEq, Repr

/-- A packet with the header fields that `MatchQ` and the queues read. `qpid`, `rank` and `schTag`
are its `QPTag`, `RankTag` and `SchTag`. -/
structure Packet where
  l3Prot : ProtType
  udpPg : ℕ
  tknPg : ℕ
  dip : ℕ
  size : ℕ
  qpid : Option ℕ
  rank : Option ℕ
  schTag : Bool
  pfc : Option PauseHeader
  deriving DecidableEq, Repr

/-- What a scan reads besides the queues: the time, `m_paused` of the device and
`Settings::hostIp2IdMap`. -/
structure Env where
  now : ℕ
  paused : ℕ → Bool
  ip2id : ℕ → Option ℕ

/-- `BEgressQueue`. A queue below `QUEUENUM` is the heap of a `PIFOQueue` when `pifo` holds; the
packets of the others wait in the order in which they came. `none` in `rateLimiters` is the ratio 0,
and a limiter is the time that a packet of a size takes at its rate. Levels without an entry in
`m_priorities` and `m_rrlasts` have no classes. -/
structure BEgressQueue where
  maxBytes : ℕ
  pifo : Bool
  useHierQ : Bool
  rateLimiterMode : ℕ
  queues : List (List Packet) := List.replicate queueNum []
  bytesInQueue : List ℕ := List.replicate queueNum 0
  bytesInQueueTotal : ℕ := 0
  pfcCtrls : List Bool := List.replicate queueNum false
  rateLimiters : List (Option (ℕ → ℕ)) := List.replicate queueNum none
  nxtAvails : List ℕ := List.replicate queueNum 0
  rateLimiting : List Bool := List.replicate queueNum false
  hierQMap : ℕ → Option (List ℕ) := Function.update (fun _ => none) 0 (some (List.range queueNum))
  priorities : ℕ → List (List ℕ) := fun _ => []
  rrlasts : ℕ → List ℕ := fun _ => []
  dstQMap : ℕ → Option ℕ := fun _ => none
  qlast : ℕ := 0

/-- What the scan of `DoDequeueRR` leaves in `prio`, `rrlast` and `qIndex` when it has found a
queue. -/
structure Found where
  prio : ℕ
  rrlast : ℕ
  qIndex : ℕ

namespace BEgressQueue

/-! ### Configuration -/

def setPfcCtrl (q : BEgressQueue) (pfcCtrls : List Bool) : BEgressQueue := { q with pfcCtrls }

def setPriority (q : BEgressQueue) (priority : List (List ℕ)) : BEgressQueue :=
  { q with
    priorities := Function.update q.priorities 0 priority
    rrlasts := Function.update q.rrlasts 0 (List.replicate priority.length 0) }

def setRateLimiter (q : BEgressQueue) (rateLimiters : List (Option (ℕ → ℕ))) : BEgressQueue :=
  { q with rateLimiters }

/-! ### Enqueue -/

/-- The test of `DoEnqueue` for a packet of a size. -/
def room (q : BEgressQueue) (size : ℕ) : Prop := add32 q.bytesInQueueTotal size < q.maxBytes

instance (q : BEgressQueue) (size : ℕ) : Decidable (q.room size) := Nat.decLt ..

/-- The rank of a packet that waits in a `PIFOQueue`. -/
def rankOf (p : Packet) : ℕ := p.rank.getD 0

/-- `Queue::Enqueue` of a `PIFOQueue` when `byRank`, of a `DropTailQueue` otherwise. -/
def push (byRank : Bool) (packets : List Packet) (p : Packet) : Except Fault (List Packet) :=
  if byRank then if p.rank.isNone then .error .assertion else .ok (Heap.push rankOf packets p)
  else .ok (packets ++ [p])

/-- What `Queue::Dequeue` leaves behind the packet `p`. -/
def left (byRank : Bool) (p : Packet) (rest : List Packet) : List Packet :=
  if byRank then Heap.pop rankOf (p :: rest) else rest

/-- `DoEnqueue`; `none` is its `false`. -/
def doEnqueue (q : BEgressQueue) (p : Packet) (qIndex : ℕ) : Except Fault (Option BEgressQueue) :=
  if q.room p.size then do
    let packets ← readAt (.outOfRange .queues) q.queues qIndex
    let packets ← push (q.pifo && decide (qIndex < queueNum)) packets p
    let bytes ← modifyAt (.outOfRange .bytesInQueue) q.bytesInQueue qIndex (add32 · p.size)
    .ok (some { q with
      queues := q.queues.set qIndex packets
      bytesInQueue := bytes
      bytesInQueueTotal := add32 q.bytesInQueueTotal p.size })
  else .ok none

/-- `Enqueue`, whose result no caller uses. -/
def enqueue (q : BEgressQueue) (p : Packet) (qIndex : ℕ) : Except Fault BEgressQueue :=
  (q.doEnqueue p qIndex).map (Option.getD · q)

/-! ### DoDequeueRR -/

/-- Whether the limiter of a queue still holds its next packet back. -/
def limited (q : BEgressQueue) (now qIndex : ℕ) : Except Fault Bool := do
  let limiter ← readAt (.outOfRange .rateLimiters) q.rateLimiters qIndex
  if limiter.isNone then .ok false
  else
    let avail ← readAt (.outOfRange .nxtAvails) q.nxtAvails qIndex
    .ok (decide (now < avail))

/-- The test of one queue in the scan of `DoDequeueRR`. -/
def sendable (q : BEgressQueue) (pfcGran : PauseGran) (env : Env) (qIndex : ℕ) : Except Fault Bool := do
  let packets ← readAt (.outOfRange .queues) q.queues qIndex
  match packets.head? with
  | none => .ok false
  | some top =>
    let held ← q.limited env.now qIndex
    if held then .ok false
    else
      let pfcCtrl ← readAt (.outOfRange .pfcCtrls) q.pfcCtrls qIndex
      if !pfcCtrl then .ok true
      else match pfcGran with
        | .pg => .ok !env.paused qIndex
        | .dst =>
          if top.l3Prot = .udp then (env.ip2id top.dip).elim (.error .assertion) fun dst => .ok !env.paused dst
          else .ok true
        | .qp =>
          if top.l3Prot = .udp then top.qpid.elim (.error .assertion) fun qpid => .ok !env.paused qpid
          else .ok true
        | .off | .spot | .queue => .error .assertion

/-- One turn of the outer loop: the queues of a class in a ring, from the position of `m_rrlasts`
on. -/
def scanClass (q : BEgressQueue) (pfcGran : PauseGran) (env : Env) (prio : ℕ) (cls : List ℕ) :
    Except Fault (Option (ℕ × ℕ)) :=
  if cls = [] then .ok none
  else do
    let rrlast ← readAt (.outOfRange .rrlasts) (q.rrlasts 0) prio
    firstFrom (q.sendable pfcGran env) 0 (cls.rotate rrlast)

/-- The outer loop from class `prio` on. It increments `prio` before it tests `found`. -/
def scan (q : BEgressQueue) (pfcGran : PauseGran) (env : Env) : ℕ → List (List ℕ) →
    Except Fault (Option Found)
  | _, [] => .ok none
  | prio, cls :: rest => do
    match ← q.scanClass pfcGran env prio cls with
    | some (i, qIndex) => .ok (some ⟨prio + 1, i, qIndex⟩)
    | none => q.scan pfcGran env (prio + 1) rest

def skipIdle (now : ℕ) (q : BEgressQueue) (i : ℕ) : Except Fault BEgressQueue := do
  let limiter ← readAt (.outOfRange .rateLimiters) q.rateLimiters i
  if limiter.isNone then .ok q
  else
    let bytes ← readAt (.outOfRange .bytesInQueue) q.bytesInQueue i
    if bytes ≠ 0 then .ok q
    else
      let avail ← readAt (.outOfRange .nxtAvails) q.nxtAvails i
      if now ≤ avail then .ok q
      else
        let nxtAvails ← modifyAt (.outOfRange .nxtAvails) q.nxtAvails i fun _ => now
        .ok { q with nxtAvails }

/-- The limiter of queue `i` when queue `qIndex` has sent a packet of a size. -/
def limit (now size qIndex : ℕ) (q : BEgressQueue) (i : ℕ) : Except Fault BEgressQueue :=
  if i = qIndex then do
    let limiter ← readAt (.outOfRange .rateLimiters) q.rateLimiters i
    match limiter with
    | none => .ok q
    | some txTime =>
      let started ← readAt (.outOfRange .rateLimiting) q.rateLimiting i
      let rateLimiting ← modifyAt (.outOfRange .rateLimiting) q.rateLimiting i fun _ => true
      let nxtAvails ← modifyAt (.outOfRange .nxtAvails) q.nxtAvails i fun avail =>
        (if started && decide (q.rateLimiterMode ≤ 1) then avail else now) + txTime size
      .ok { q with rateLimiting, nxtAvails }
  else if q.rateLimiterMode = 1 then skipIdle now q i
  else .ok q

/-- `Dequeue` of the queue `qIndex` with the byte counters. -/
def pop (q : BEgressQueue) (qIndex : ℕ) : Except Fault (BEgressQueue × Packet) := do
  let packets ← readAt (.outOfRange .queues) q.queues qIndex
  match packets with
  | [] => .error .assertion
  | p :: rest =>
    let bytes ← modifyAt (.outOfRange .bytesInQueue) q.bytesInQueue qIndex (sub32 · p.size)
    .ok ({ q with
      queues := q.queues.set qIndex (left (q.pifo && decide (qIndex < queueNum)) p rest)
      bytesInQueue := bytes
      bytesInQueueTotal := sub32 q.bytesInQueueTotal p.size }, p)

/-- `m_rrlasts[0][prio] = rrlast`, and the queue served last. -/
def setRrlast (q : BEgressQueue) (f : Found) : Except Fault BEgressQueue :=
  if f.qIndex = 0 then .ok { q with qlast := 0 }
  else do
    let rrlasts ← modifyAt (.outOfRange .rrlasts) (q.rrlasts 0) f.prio fun _ => f.rrlast
    .ok { q with rrlasts := Function.update q.rrlasts 0 rrlasts, qlast := f.qIndex }

/-- `DoDequeueRR`, with what becomes of its write to `m_rrlasts`. -/
def doDequeueRRWith (write : BEgressQueue → Found → Except Fault BEgressQueue) (q : BEgressQueue)
    (pfcGran : PauseGran) (env : Env) : Except Fault (BEgressQueue × Option Packet) :=
  if q.bytesInQueueTotal = 0 then .ok (q, none)
  else do
    match ← q.scan pfcGran env 0 (q.priorities 0) with
    | some f =>
      let (q, p) ← q.pop f.qIndex
      let q ← write q f
      let q ← (List.range q.rateLimiters.length).foldlM (limit env.now p.size f.qIndex) q
      .ok (q, some p)
    | none =>
      if q.rateLimiterMode = 1 then
        let q ← (List.range q.rateLimiters.length).foldlM (skipIdle env.now) q
        .ok (q, none)
      else .ok (q, none)

def doDequeueRR (q : BEgressQueue) (pfcGran : PauseGran) (env : Env) :
    Except Fault (BEgressQueue × Option Packet) :=
  q.doDequeueRRWith setRrlast pfcGran env

/-! ### Queues added at run time -/

def getNBytes (q : BEgressQueue) (qIndex : ℕ) : Except Fault ℕ :=
  readAt (.outOfRange .bytesInQueue) q.bytesInQueue qIndex

/-- The vectors of `RegisterNewQ` with one more queue. -/
def grow (q : BEgressQueue) : BEgressQueue :=
  { q with
    queues := q.queues ++ [[]]
    bytesInQueue := q.bytesInQueue ++ [0]
    rateLimiters := q.rateLimiters ++ [none]
    nxtAvails := q.nxtAvails ++ [0]
    rateLimiting := q.rateLimiting ++ [false]
    pfcCtrls := q.pfcCtrls ++ [true] }

/-- `m_priorities[level]` with `id` in its last class. -/
def addToLast (q : BEgressQueue) (level id : ℕ) : Except Fault BEgressQueue := do
  let classes := q.priorities level
  let classes ← modifyAt (.outOfRange .priorities) classes (classes.length - 1) (· ++ [id])
  .ok { q with priorities := Function.update q.priorities level classes }

def registerNewQ (q : BEgressQueue) (level : ℕ) : Except Fault (BEgressQueue × ℕ) :=
  if q.bytesInQueue.length ≠ q.queues.length then .error .assertion
  else
    let id := q.queues.length
    let grown := q.grow
    if q.useHierQ then
      match q.hierQMap level with
      | none => .ok ({ grown with
          hierQMap := Function.update q.hierQMap level (some [id])
          priorities := Function.update q.priorities level [[id]]
          rrlasts := Function.update q.rrlasts level [0] }, id)
      | some ids => do
        let added ← grown.addToLast level id
        .ok ({ added with hierQMap := Function.update q.hierQMap level (some (ids ++ [id])) }, id)
    else do
      let added ← grown.addToLast 0 id
      .ok (added, id)

def registerVOQ (q : BEgressQueue) (dst : ℕ) : Except Fault (BEgressQueue × ℕ) :=
  match q.dstQMap dst with
  | some id => .ok (q, id)
  | none => do
    let (q, id) ← q.registerNewQ 0
    .ok ({ q with dstQMap := Function.update q.dstQMap dst (some id) }, id)

def registerCIQ (q : BEgressQueue) (level : ℕ) : Except Fault (BEgressQueue × ℕ) :=
  q.registerNewQ level

end BEgressQueue

end Egress

end Pyrrha

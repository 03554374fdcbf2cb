import Mathlib.Algebra.BigOperators.Group.List.Defs
import Pyrrha.Switch.Data

/-!
`BEgressQueue` and `SwitchMmu` as the congestion-isolation code uses them: the queue operations,
the admission counters, the match against the congestion roots, and the pause and resume tests.
-/

namespace Pyrrha
open Lib

variable {n : ℕ}

namespace Switch

/-! ### BEgressQueue -/

/-- `m_queues[q]->Enqueue` with its byte counters. -/
def pushQueue (s : Switch n) (dev : Fin n) (p : Packet n) (q : ℕ) : Switch n :=
  { s with
    queues := update₂ s.queues dev q (s.queues dev q ++ [p])
    bytesInQueue := update₂ s.bytesInQueue dev q (s.bytesInQueue dev q + p.size)
    bytesInQueueTotal :=
      Function.update s.bytesInQueueTotal dev (s.bytesInQueueTotal dev + p.size) }

/-- `m_queues[q]->Dequeue` of the packet `p` at position `k`, with its byte counters. -/
def popQueue (s : Switch n) (dev : Fin n) (q k : ℕ) (p : Packet n) : Switch n :=
  { s with
    queues := update₂ s.queues dev q ((s.queues dev q).eraseIdx k)
    bytesInQueue := update₂ s.bytesInQueue dev q (s.bytesInQueue dev q - p.size)
    bytesInQueueTotal :=
      Function.update s.bytesInQueueTotal dev (s.bytesInQueueTotal dev - p.size) }

/-- `BEgressQueue::DoEnqueue`; `none` is its `false`. -/
def doEnqueue (cfg : Config n) (s : Switch n) (dev : Fin n) (p : Packet n) (q : ℕ) :
    Option (Switch n) :=
  if s.bytesInQueueTotal dev + p.size < cfg.maxBytes then some (s.pushQueue dev p q) else none

/-- `BEgressQueue::RegisterNewQ` under `use_hier_q`, for the id `m_queues.size()`. -/
def registerCIQ (s : Switch n) (dev : Fin n) (level : ℕ) : Switch n :=
  { s with
    queues := update₂ s.queues dev (s.nQueue dev) []
    bytesInQueue := update₂ s.bytesInQueue dev (s.nQueue dev) 0
    nQueue := Function.update s.nQueue dev (s.nQueue dev + 1)
    priorities := update₂ s.priorities dev level (s.priorities dev level ++ [s.nQueue dev]) }

/-! ### Admission -/

def checkEgressAdmission (cfg : Config n) (s : Switch n) (port : Fin n) (q psize : ℕ) : Bool :=
  decide (queueNum ≤ q) || decide (add32 (s.egressBytes port q) psize ≤ cfg.maxQlen q)

def setEgress (s : Switch n) (port : Fin n) (q bytes : ℕ) : Switch n :=
  { s with egressBytes := update₂ s.egressBytes port q bytes }

def updateEgressAdmission (s : Switch n) (port : Fin n) (q psize : ℕ) : Switch n :=
  s.setEgress port q (add32 (s.egressBytes port q) psize)

def removeFromEgressAdmission (s : Switch n) (port : Fin n) (q psize : ℕ) : Checked (Switch n) :=
  if psize ≤ s.egressBytes port q then
    .ok (s.setEgress port q (s.egressBytes port q - psize))
  else .error .removeFromEgressAdmission

/-- `switch_buffer` of `DoStatistics`: what all egress queues hold. -/
def switchBuffer (s : Switch n) : ℕ :=
  ((List.finRange n).map s.bytesInQueueTotal).sum % 2 ^ 32

/-- `egress_buffer` of `DoStatistics`: what has been admitted and not yet left. -/
def egressBuffer (s : Switch n) : ℕ :=
  ((List.finRange n).map fun i => ((List.range (s.nQueue i)).map (s.egressBytes i)).sum).sum %
    2 ^ 32

/-- `SwitchNode::DoStatistics`, of which only the assert matters here. -/
def doStatistics (s : Switch n) : Checked (Switch n) :=
  if s.egressBuffer ≤ s.switchBuffer then .ok s else .error .doStatistics

/-! ### Congestion roots -/

def getEntry (s : Switch n) (root : Spot) : Option (CAMEntry n) := s.congestionEntries root

def setEntry (s : Switch n) (root : Spot) (e : CAMEntry n) : Switch n :=
  { s with congestionEntries := Function.update s.congestionEntries root (some e) }

def eraseEntry (s : Switch n) (root : Spot) : Switch n :=
  { s with congestionEntries := Function.update s.congestionEntries root none }

def isRoot (s : Switch n) (port : Fin n) : Bool := decide (∃ i, s.upstreamPaused port i ≠ none)

/-- The hops the loops of `MatchNextCongestionRoot` visit, in their order. -/
def matchHops (cfg : Config n) (tag : RoutingTag) (currLevel : Option ℕ) : List ℕ :=
  if cfg.nearestMatch then
    let first := tag.currHop + 1 + currLevel.getD 0
    List.range' first (tag.activeHop - first)
  else
    (List.range' (tag.currHop + 1) (currLevel.getD (tag.activeHop - tag.currHop) - 1)).reverse

/-- The body of these loops: the first visited hop whose root has a CIQ on `egress`. -/
def matchFirst (s : Switch n) (egress : Fin n) (tag : RoutingTag) :
    List ℕ → Checked (Option (Spot × CAMEntry n))
  | [] => .ok none
  | i :: rest =>
    match tag.routing[i]? with
    | none => .error .getHopRouting
    | some root =>
      match s.getEntry root with
      | some e =>
          if e.oportCiq egress ≠ none then .ok (some (root, e)) else matchFirst s egress tag rest
      | none => matchFirst s egress tag rest

/-- `SwitchMmu::MatchNextCongestionRoot`; `currLevel = none` is the first match (`-1`). -/
def matchNextCongestionRoot (cfg : Config n) (s : Switch n) (egress : Fin n) (tag : RoutingTag)
    (currLevel : Option ℕ) : Checked (Option (Spot × CAMEntry n)) :=
  -- an empty tag makes the unsigned start index of the farthest match wrap, and its lookup asserts
  if !cfg.nearestMatch && currLevel.isNone && tag.activeHop == 0 then .error .getHopRouting
  else s.matchFirst egress tag (matchHops cfg tag currLevel)

def checkRootPause (cfg : Config n) (s : Switch n) (ingress egress : Fin n) (q : ℕ) : Bool :=
  decide (cfg.thCongestion ingress egress < s.egressBytes egress q) &&
    (!cfg.upPort egress || decide (cfg.thHol < s.egressBytes egress q)) &&
    (s.upstreamPaused egress ingress != some true)

def checkRootResume (cfg : Config n) (s : Switch n) (ingress egress : Fin n) (q : ℕ) : Bool :=
  decide (s.egressBytes egress q < cfg.thResume ingress egress)

def setUpstreamPaused (s : Switch n) (egress ingress : Fin n) (v : Option Bool) : Switch n :=
  { s with upstreamPaused := update₂ s.upstreamPaused egress ingress v }

def setRootPause (s : Switch n) (ingress egress : Fin n) : Switch n :=
  s.setUpstreamPaused egress ingress (some true)

def setRootDealloc (s : Switch n) (ingress egress : Fin n) : Switch n :=
  s.setUpstreamPaused egress ingress none

/-- `QbbNetDevice::SendCIPacket` on device `dev`, scheduled without delay. -/
def sendCIPacket (s : Switch n) (dev : Fin n) (tag : CITag) : Switch n :=
  { s with out := Function.update s.out dev (s.out dev ++ [tag]) }

def setPaused (s : Switch n) (dev : Fin n) (ciq : Option ℕ) (v : Option Bool) : Switch n :=
  { s with paused := update₂ s.paused dev ciq v }

def setCiqRoot (s : Switch n) (dev : Fin n) (ciq : ℕ) (root : Option Spot) : Switch n :=
  { s with ciqRootMap := update₂ s.ciqRootMap dev ciq root }

end Switch

namespace CAMEntry

def setStatus (e : CAMEntry n) (p : Fin n) (st : CIQStatus) : CAMEntry n :=
  { e with oportStatus := Function.update e.oportStatus p st }

def setCiq (e : CAMEntry n) (p : Fin n) (c : Option ℕ) : CAMEntry n :=
  { e with oportCiq := Function.update e.oportCiq p c }

def setIportPaused (e : CAMEntry n) (i : Fin n) (v : Option Bool) : CAMEntry n :=
  { e with iportPaused := Function.update e.iportPaused i v }

def setCounter (e : CAMEntry n) (i : Fin n) (v : ℕ) : CAMEntry n :=
  { e with iportCounter := Function.update e.iportCounter i v }

def checkCIQPause (cfg : Config n) (e : CAMEntry n) (ingress egress : Fin n) : Bool :=
  (e.oportStatus egress != .merge) &&
    decide (cfg.thCongestion ingress egress < e.iportCounter ingress) &&
    (e.iportPaused ingress != some true)

def checkCIQResume (cfg : Config n) (e : CAMEntry n) (ingress egress : Fin n) : Bool :=
  (e.oportStatus egress != .merge) &&
    decide (e.iportCounter ingress < cfg.thResume ingress egress) &&
    (e.iportPaused ingress == some true)

def setCIQPause (e : CAMEntry n) (i : Fin n) : CAMEntry n := e.setIportPaused i (some true)

def setCIQResume (e : CAMEntry n) (i : Fin n) : CAMEntry n := e.setIportPaused i (some false)

/-- `SwitchMmu::SetCIQResume` for all upstreams in `moves`. -/
def setCIQResumes (e : CAMEntry n) (moves : Fin n → Bool) : CAMEntry n :=
  { e with iportPaused := fun i => if moves i then some false else e.iportPaused i }

def setCIQDealloc (e : CAMEntry n) (i : Fin n) : CAMEntry n := e.setIportPaused i none

end CAMEntry

end Pyrrha

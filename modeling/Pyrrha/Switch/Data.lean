import Mathlib.Algebra.Order.Ring.Nat
import Mathlib.Data.Fintype.Basic
import Mathlib.Data.List.FinRange
import Pyrrha.Lib.Update

/-!
The data a switch keeps in `FC_CONGESTION_ISOLATION` mode: packets with their tags, the signals of
the congestion tree, the entries of `SwitchMmu`, and the queues and pause flags of each device.
A switch has `n` devices; every device index below is a `Fin n`.
-/

namespace Pyrrha

/-- `Settings::QUEUENUM`, the number of output queues of a port; queue ids from here on are CIQs. -/
def queueNum : ℕ := 8

def maxHop : ℕ := 8

/-- `Settings::NODESCALE`, the number of indices of the arrays over nodes, the ingress counters
among them. -/
def nodeScale : ℕ := 3000

/-- The sentinel `(uint32_t)-1` for a port. -/
def noPort : ℕ := 2 ^ 32 - 1

instance neZero_two : NeZero 2 := ⟨by decide⟩

instance neZero_three : NeZero 3 := ⟨by decide⟩

/-- `SwitchMmu::Spot`: an output port of a switch, the name of a congestion root. -/
structure Spot where
  switchId : ℕ
  portId : ℕ
  deriving DecidableEq, Repr

/-- `CustomHeader::ProtTypeE`. -/
inductive ProtType where
  | tcp | udp | sack | ci | req | tokenAck | token | switchPsn | switchAck | ack | nack | pfc | qcn
  deriving DecidableEq, Repr

/-- The header fields `MatchDefaultQ` reads. Priority groups are output queues. -/
structure CustomHeader where
  l3Prot : ProtType
  udpPg : Fin queueNum
  tknPg : Fin queueNum
  deriving DecidableEq

/-- `RoutingTag`: the remaining route as the sender predicted it. -/
structure RoutingTag where
  currHop : ℕ
  routing : List Spot
  deriving DecidableEq

namespace RoutingTag

def activeHop (t : RoutingTag) : ℕ := t.routing.length

def addCurrHop (t : RoutingTag) : RoutingTag := { t with currHop := t.currHop + 1 }

end RoutingTag

/-- A packet as the switch handles it; `inDev` is its `FlowIdTag`. -/
structure Packet (n : ℕ) where
  uid : ℕ
  header : CustomHeader
  inDev : Fin n
  routingTag : RoutingTag
  size : ℕ
  size_pos : 0 < size
  size_lt : size < 2 ^ 31
  deriving DecidableEq

/-- The type byte of a `CITag`. -/
inductive CIType where
  | pause | resume | dealloc | merge
  deriving DecidableEq, Repr

/-- `CITag`, the per-hop control signal of the congestion tree. -/
structure CITag where
  ciType : CIType
  root : Spot
  hop : ℕ
  old : Spot
  deriving DecidableEq, Repr

inductive CIQStatus where
  | initial | pause | resume | merge
  deriving DecidableEq, Repr

/-- `CAMEntry`, the record of one congestion root; `none` in `oportCiq` is the sentinel `-1`. -/
structure CAMEntry (n : ℕ) where
  hop : ℕ
  oportCiq : Fin n → Option ℕ := fun _ => none
  oportStatus : Fin n → CIQStatus := fun _ => .initial
  iportPaused : Fin n → Option Bool := fun _ => none
  iportCounter : Fin n → ℕ := fun _ => 0

/-- Settings of one switch that do not change during a run. The thresholds are the `uint32_t` values
of the per-hop BDP formulas, by ingress and egress. -/
structure Config (n : ℕ) where
  mId : ℕ
  isToR : Bool
  upPort : Fin n → Bool
  nearestMatch : Bool
  congestionMerge : Bool
  deallocOn : Bool
  onlyDownPortEnable : Bool
  ackHighPrio : Bool
  pifo : Bool
  checkSharedBuffer : Bool
  bufferSize : ℕ
  maxQlen : ℕ → ℕ
  maxBytes : ℕ
  maxBytes_le : maxBytes ≤ 2 ^ 31
  thCongestion : Fin n → Fin n → ℕ
  thResume : Fin n → Fin n → ℕ
  thHol : ℕ

/-- State of a switch: the congestion-isolation part of `SwitchMmu`, then `BEgressQueue` and
`QbbNetDevice` of each device. `out` holds the signals scheduled for the peer of a device, oldest
first, and `departed` the packets a device has put on the wire, with the tag they left with. -/
structure Switch (n : ℕ) where
  congestionEntries : Spot → Option (CAMEntry n) := fun _ => none
  ciqRootMap : Fin n → ℕ → Option Spot := fun _ _ => none
  upstreamPaused : Fin n → Fin n → Option Bool := fun _ _ => none
  egressBytes : Fin n → ℕ → ℕ := fun _ _ => 0
  queues : Fin n → ℕ → List (Packet n) := fun _ _ => []
  nQueue : Fin n → ℕ := fun _ => queueNum
  bytesInQueue : Fin n → ℕ → ℕ := fun _ _ => 0
  bytesInQueueTotal : Fin n → ℕ := fun _ => 0
  priorities : Fin n → ℕ → List ℕ := fun _ _ => []
  paused : Fin n → Option ℕ → Option Bool := fun _ _ => none
  out : Fin n → List CITag := fun _ => []
  departed : Fin n → List (Packet n × RoutingTag) := fun _ => []

/-- The asserts of the modelled functions, by the function that makes them. -/
inductive Assert where
  | getHopRouting
  | sendToDev
  | removeFromEgressAdmission
  | doStatistics
  | receiveCI
  | doHierQRR
  | notifyEnqueueIntoCIQ
  | notifyDequeueFromCIQ
  | checkAndSendDealloc
  | releaseMergeCIQEntry
  deriving DecidableEq, Repr

/-- A step of the program: the new state, or the assert that stopped it. -/
abbrev Checked (α : Type) : Type := Except Assert α

/-- Addition of the code's `uint32_t` counters. -/
def add32 (a b : ℕ) : ℕ := (a + b) % 2 ^ 32

/-- Subtraction of the code's `uint32_t` counters. -/
def sub32 (a b : ℕ) : ℕ := (a + 2 ^ 32 - b) % 2 ^ 32

theorem add32_exact {a b : ℕ} (fits : a + b < 2 ^ 32) : add32 a b = a + b := Nat.mod_eq_of_lt fits

theorem sub32_exact {a b : ℕ} (lt : a < 2 ^ 32) (le : b ≤ a) : sub32 a b = a - b := by
  unfold sub32
  omega

end Pyrrha

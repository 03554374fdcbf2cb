import Pyrrha.Lib.Tally
import Pyrrha.Switch.Data

/-!
The bytes a switch holds and the counters it keeps of them, in every `fc_mode`: packets and where
they are buffered, the settings of the admission control, and the counters of `SwitchMmu`,
`SwitchNode` and `BEgressQueue`. The congestion tree itself is the subject of `Pyrrha.Switch`.
-/

namespace Pyrrha
open Lib

namespace Buffer

def reserve : ℕ := 4 * 1024

/-- `SwitchMmu::resume_offset`. -/
def resumeOffset : ℕ := 3 * 1024

/-- `Settings::FC_MODE`. -/
inductive FcMode where
  | pfc | floodgate | bfc | voqDstPfc | congestionIsolation | pfcOff
  deriving DecidableEq, Repr

/-- `Settings::PAUSE_GRAN`, as far as `pfc_mode` uses it. -/
inductive PauseGran where
  | off | pg | dst
  deriving DecidableEq, Repr

/-- `Settings::voq_pause_mode`. -/
inductive VoqPauseMode where
  | egressVqlen | buffer | egressBuffer
  deriving DecidableEq, Repr

/-- A packet: its protocol, the id of its destination host, its size, its `FlowIdTag` (absent from
what a switch generates itself), and for BFC the hash of its flow, `UpstreamTag` and `MetaTag`. -/
@[ext]
structure Packet (n : ℕ) where
  l3Prot : ProtType
  dst : Fin nodeScale
  size : ℕ
  size_pos : 0 < size
  size_lt : size < 2 ^ 31
  inDev : Option (Fin n)
  fid : ℕ
  upstreamQ : ℕ
  counterIncr : Bool

instance Packet.decEq (n : ℕ) : DecidableEq (Packet n) :=
  fun _ _ => decidable_of_iff _ Packet.ext_iff.symm

/-- Where a packet waits: in `m_queues` of its output device, in a VOQ, or in `m_egress_cache`. -/
inductive Place where
  | queue | voq | cache
  deriving DecidableEq, Repr

/-- A buffered packet with the output device and queue it is meant for. `counted` is a history:
whether `SendToDev` has added it to `m_bytes`. -/
structure Item (n : ℕ) where
  dev : Fin n
  q : ℕ
  place : Place
  counted : Bool
  packet : Packet n
  deriving DecidableEq

def Item.size {n : ℕ} (it : Item n) : ℕ := it.packet.size

/-- Settings of one switch. The thresholds of VOQ_DSTPFC are the `uint32_t` values of their BDP
formulas, by ingress and egress. -/
structure Config (n : ℕ) where
  fcMode : FcMode
  pfcIngressCtrls : ℕ → Bool
  pfcMode : Fin n → PauseGran
  pfcThStatic : Fin n → ℕ
  pfcAShift : Fin n → ℕ
  headroom : Fin n → ℕ
  bufferSize : ℕ
  bufferSize_lt : bufferSize < 2 ^ 32
  maxQlen : ℕ → ℕ
  maxBytes : ℕ
  maxBytes_le : maxBytes ≤ 2 ^ 31
  checkSharedBuffer : Bool
  pifo : Bool
  useSwitchwin : Bool
  usePortWin : Bool
  isLastHop : Fin n → Bool
  voqPauseMode : VoqPauseMode
  voqPauseTh : Fin n → Fin n → ℕ
  voqResumeTh : Fin n → Fin n → ℕ
  pfcSize : ℕ
  pfcSize_pos : 0 < pfcSize
  pfcSize_lt : pfcSize < 2 ^ 31

/-- What `SendToDev` does with a data packet of Floodgate: `CheckVOQWin` lets it pass, or holds
it. -/
inductive Window where
  | pass | voq | cache
  deriving DecidableEq, Repr

/-- The decisions of a call that do not concern the byte counters: the window of the destination,
and `CheckBFCPause`. -/
structure Choice where
  window : Window
  bfcPause : Bool

/-- State of a switch. `egressLen` and `nQueue` are the sizes of the vectors `egress_bytes` and
`m_bytesInQueue`; `held` has every buffered packet, in the order of arrival at its place; `voqBytes`
is `VOQ::GetTotalBytes` of this switch. `pfcFrames` and `refused` are histories: the PFC frames
handed to devices (`true` is a pause), and whether a `BEgressQueue` has refused a packet that came
in through a port. -/
structure State (n : ℕ) where
  egressBytes : Fin n → ℕ → ℕ := fun _ _ => 0
  egressLen : Fin n → ℕ := fun _ => queueNum
  sharedUsedBytes : ℕ := 0
  hdrmBytes : Fin n → ℕ → ℕ := fun _ _ => 0
  ingressBytes : Fin n → ℕ → ℕ := fun _ _ => 0
  paused : Fin n → ℕ → Bool := fun _ _ => false
  bufferingBytes : ℕ → ℕ := fun _ => 0
  bufferingEgressBytes : Fin n → ℕ → ℕ := fun _ _ => 0
  flowTb : Fin n → ℕ → Option ℕ := fun _ _ => none
  pauseCounter : Fin n → ℕ → ℕ := fun _ _ => 0
  buffering : ℕ → ℕ := fun _ => 0
  voqBytes : ℕ := 0
  egressCacheBytes : Fin n → ℕ := fun _ => 0
  bytes : Fin n → Fin n → ℕ → ℕ := fun _ _ _ => 0
  nQueue : Fin n → ℕ := fun _ => queueNum
  held : List (Item n) := []
  bytesInQueue : Fin n → ℕ → ℕ := fun _ _ => 0
  bytesInQueueTotal : Fin n → ℕ := fun _ => 0
  linkUp : Fin n → Bool := fun _ => true
  pfcFrames : List (Fin n × ℕ × Bool) := []
  refused : Bool := false

/-- The asserts of the modelled functions, by the function that makes them. -/
inductive Assert where
  | sendToDev
  | switchNotifyDequeue
  | removeFromEgressAdmission
  | doStatistics
  | doHierQRR
  deriving DecidableEq, Repr

/-- A step of the program: the new state, or the assert that stopped it. -/
abbrev Checked (α : Type) : Type := Except Assert α

end Buffer

end Pyrrha

import Mathlib.Logic.Function.Basic
import Mathlib.Data.Nat.Notation
import Pyrrha.Lib.Update
import Pyrrha.Switch.Data

/-!
Floodgate: the windows `SwitchMmu` keeps for destinations and ports, the VOQs of `VOQGroup` and
`VOQ`, the egress caches, and the sequence numbers of the absolute mode. What a switch owes its
upstream switches is in `Pyrrha.Floodgate.Credit`; the buffers themselves are the subject of
`Pyrrha.Buffer`. PSNs count bytes in `uint64_t`; they are natural numbers here, which is the same
below 2^64 bytes.
-/

namespace Pyrrha
open Lib

namespace Floodgate

@[irreducible] def switchScale : ℕ := 1000

/-- `Settings::switch_ack_mode`. -/
inductive AckMode where
  | hostPerPacketAck | switchDstCredit | switchIngressCredit
  deriving DecidableEq, Repr

/-- An entry of `m_dst2group`; `ignore` is the group `(uint32_t)-1`. -/
inductive DstRule where
  | ignore
  | group (g : ℕ)
  deriving DecidableEq, Repr

/-- The settings of a `VOQGroup`. A limit of 0 is no limit, which excludes dynamic hashing. -/
structure VoqConfig where
  voqLimit : ℕ
  dynamicHash : Bool
  limited : dynamicHash = true → 0 < voqLimit

/-- Settings of one switch. `bdpMap` are the entries of `VOQ::BDPMAP` of this switch, by host and
ToR id; `portWin` is what `m_egress_wins` starts from. -/
structure Config where
  ackMode : AckMode
  absolutePsn : Bool
  usePortWin : Bool
  resetOnlyToR : Bool
  hostNum : ℕ
  hostPerRack : ℕ
  bdpMap : ℕ → Option ℕ
  bdpMap_lt : ∀ d w, bdpMap d = some w → w < 2 ^ 32
  portWin : ℕ → ℕ
  portWin_lt : ∀ p, portWin p < 2 ^ 32
  groupNum : ℕ
  group : ℕ → VoqConfig
  dst2group : ℕ → Option DstRule
  hosts : ∀ d, (dst2group d).isSome = true ↔ d < hostNum
  grouped : ∀ d g, dst2group d = some (.group g) → g < groupNum
  portWin_mode : usePortWin = true → resetOnlyToR = false ∧ ackMode ≠ .hostPerPacketAck
  psn_mode : absolutePsn = true → ackMode ≠ .hostPerPacketAck
  synTimeout : ℕ
  syn_mode : 0 < synTimeout → absolutePsn = true

/-- A data packet with the output device and queue chosen for it (`PacketUnit`): its `GetUid`, its
hosts, its `QPTag`, and the `SwitchPSNTag` it gets when it passes the window. -/
@[ext]
structure PacketUnit where
  uid : ℕ
  src : ℕ
  dst : ℕ
  qpId : ℕ
  size : ℕ
  size_pos : 0 < size
  size_lt : size < 2 ^ 31
  outDev : ℕ
  qIndex : ℕ
  psn : Option ℕ

instance PacketUnit.decEq : DecidableEq PacketUnit :=
  fun _ _ => decidable_of_iff _ PacketUnit.ext_iff.symm

def PacketUnit.bare (p : PacketUnit) : PacketUnit := { p with psn := none }

theorem PacketUnit.bare_fields {p p' : PacketUnit} (h : p'.bare = p.bare) :
    p'.dst = p.dst ∧ p'.size = p.size ∧ p'.outDev = p.outDev ∧ p'.qIndex = p.qIndex := by
  simp only [bare, PacketUnit.mk.injEq] at h
  exact ⟨h.2.2.1, h.2.2.2.2.1, h.2.2.2.2.2.1, h.2.2.2.2.2.2.1⟩

/-- The maps of a `VOQGroup`: its VOQs with their packets, and the VOQ of each destination. -/
structure Group where
  voqs : ℕ → Option (List PacketUnit) := fun _ => none
  dst2voq : ℕ → Option ℕ := fun _ => none

/-- A `SwitchSYNTag`: by destination, the acknowledged and the next PSN. -/
abbrev SynTag := ℕ → ℕ × ℕ

/-- State of a switch as the upstream of its neighbours. `voqBuffer` are the entries of
`VOQ::VOQBuffer` of this switch. `admitted`, `sent` and `synSent` are histories: the data packets
`SendToDev` has admitted, those handed to the egress queues, and the SYN packets of the timer. -/
structure State where
  wins : ℕ → Option ℕ := fun _ => none
  nxtDataPsn : ℕ → ℕ → ℕ := fun _ _ => 0
  rcvAckPsn : ℕ → ℕ → ℕ := fun _ _ => 0
  egressWins : ℕ → ℕ
  egressCache : ℕ → List PacketUnit := fun _ => []
  egressCacheBytes : ℕ → ℕ := fun _ => 0
  buffering : ℕ → Option ℕ := fun _ => none
  groups : ℕ → Group := fun _ => {}
  voqBuffer : ℕ → ℕ → ℕ := fun _ _ => 0
  lstrcvAckTime : ℕ → ℕ → ℕ := fun _ _ => 0
  synTimeoutEvent : ℕ → Option ℕ := fun _ => none
  now : ℕ := 0
  admitted : List PacketUnit := []
  sent : List PacketUnit := []
  synSent : List (ℕ × SynTag) := []

/-- The asserts of the modelled functions, by the function that makes them. -/
inductive Assert where
  | shouldIgnore
  | ensureRegisteredWin
  | getInflightBytes
  | updateDstWin
  | updateBufferingCount
  | getVOQId
  | getVOQ
  | voqDequeueCallback
  | checkAndSendVOQ
  | doStatistics
  deriving DecidableEq, Repr

/-- A step of the program: its result, or the assert that stopped it. -/
abbrev Checked (α : Type) : Type := Except Assert α

/-- The switch as `third.cc` sets it up. -/
def State.initial (cfg : Config) : State where
  egressWins := cfg.portWin

end Floodgate

end Pyrrha

import Pyrrha.Lib.OrderedSet
import Pyrrha.Switch.Data

/-!
One message between two `RdmaHw` hosts: the settings that decide how it is acknowledged, its data
and acknowledgement packets, and the state the sender and the receiver keep for it.
-/

namespace Pyrrha
open Lib

namespace Rdma

/-- The reliability mode: `use_irn`, or else `AllowDisOrder()`, or else go-back-N. -/
inductive Mode where
  | goBackN | disOrder | irn
  deriving DecidableEq, Repr

/-- Settings of one message. `mtu` is both `m_mtu` and `Settings::packet_payload`;
`hostPerPacketAck` is `fc_mode == FC_FLOODGATE && switch_ack_mode == HOST_PER_PACKET_ACK`, `l4Token`
is `m_l4TokenMode != L4TokenNo` and `mibo` is `m_cc_mode == CC_MIBO_NSDI22`. -/
structure Config where
  mode : Mode
  size : ℕ
  size_lt : size < 2 ^ 32
  mtu : ℕ
  mtu_pos : 0 < mtu
  mtu_lt : mtu < 2 ^ 32
  chunk : ℕ
  chunk_pos : 0 < chunk
  ackInterval : ℕ
  backto0 : Bool
  nackReaction : Bool
  l4Token : Bool
  hostPerPacketAck : Bool
  mibo : Bool

/-- A data packet: the sequence number of its `SeqTsHeader`, its payload and its `LastPacketTag`. -/
structure DataPacket where
  seq : ℕ
  payload : ℕ
  last : Bool
  deriving DecidableEq

inductive AckType where
  | ack | nack | sack
  deriving DecidableEq, Repr

/-- An acknowledgement with its `LastPacketTag`; `nackSeq` is `irnNackSeq` of a SACK. -/
structure AckPacket where
  ackType : AckType
  seq : ℕ
  nackSeq : ℕ
  last : Bool
  deriving DecidableEq

/-! ### Sender -/

/-- `RdmaSndOperation::IRN_STATE`. -/
inductive SndState where
  | unack | ack | nack | undef
  deriving DecidableEq, Repr

/-- `RdmaSndOperation::Irn`; `m_rtxQueuingCnt` is the length of `rtxSeqQueues`. -/
structure SndIrn where
  states : List SndState := []
  payloads : List ℕ := []
  baseSeq : ℕ := 0
  rtxSeqQueues : List ℕ := []
  deriving DecidableEq

/-- `RdmaSndOperation`. -/
structure SndOperation where
  sndNxt : ℕ := 0
  sndUna : ℕ := 0
  timeouted : Bool := false
  receivedLastAck : Bool := false
  sentPsn : OrderedSet := ∅
  timeoutPsn : OrderedSet := ∅
  irn : SndIrn := {}
  deriving DecidableEq

/-- The message at the sender: whether it is in `rdma_msgs_sending` or in `rdma_msgs_waiting`,
whether it is in `m_finished_msgs`, and the sequence numbers `IrnTimer` has been set for. -/
structure Sender where
  msg : SndOperation := {}
  isSending : Bool := true
  finished : Bool := false
  timers : List ℕ := []
  deriving DecidableEq

/-! ### Receiver -/

/-- `RdmaRxOperation::IRN_STATE`. -/
inductive RxState where
  | ack | nack | undef
  deriving DecidableEq, Repr

/-- `RdmaRxOperation::Irn`. -/
structure RxIrn where
  states : List RxState := []
  baseSeq : ℕ := 0
  deriving DecidableEq

/-- `RdmaRxOperation`. -/
structure RxOperation where
  nextExpectedSeq : ℕ := 0
  lastNACK : ℕ := 0
  milestoneRx : ℕ
  receivedLastPsnPacket : Bool := false
  receivedPsn : OrderedSet := ∅
  irn : RxIrn := {}
  deriving DecidableEq

/-- The message at the receiver: its operation once a packet has arrived, and whether it is in
`m_finished_msgs`. `checked` is a history: the packets that were passed to `ReceiverCheckSeq`. -/
structure Receiver where
  msg : Option RxOperation := none
  finished : Bool := false
  checked : List DataPacket := []
  deriving DecidableEq

end Rdma

end Pyrrha

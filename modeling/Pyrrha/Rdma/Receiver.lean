import Pyrrha.Rdma.Sender

/-!
The receiver of a message: `RdmaRxOperation` with its IRN window, `ReceiverCheckSeq` and
`ReceiveUdp`.
-/

namespace Pyrrha
open Lib

namespace Rdma

namespace RxIrn

def getNextSequenceNumber (p : ℕ) (irn : RxIrn) : ℕ :=
  (irn.baseSeq + irn.states.length * p) % 2 ^ 32

def getIrnState (p : ℕ) (irn : RxIrn) (seq : ℕ) : RxState :=
  if irn.getNextSequenceNumber p ≤ seq then .undef
  else if irn.baseSeq ≤ seq then irn.states.getD ((seq - irn.baseSeq) / p) .undef
  else .ack

/-- The loop of `Irn::MoveWindow`. -/
def dropAcked (p : ℕ) : List RxState → ℕ → List RxState × ℕ
  | .ack :: states, base => dropAcked p states (add32 base p)
  | states, base => (states, base)

def moveWindow (p : ℕ) (irn : RxIrn) : RxIrn :=
  match dropAcked p irn.states irn.baseSeq with
  | (states, base) => ⟨states, base⟩

/-- `Irn::UpdateIrnState`: packets before `seq` that have not been seen are marked as lost. -/
def updateIrnState (p : ℕ) (irn : RxIrn) (seq : ℕ) : Option RxIrn :=
  match irn.getIrnState p seq with
  | .undef => do
    let lost ← loop32 p seq (2 ^ 32 + 1) (irn.getNextSequenceNumber p)
    let seen := List.replicate lost.length RxState.nack ++ [RxState.ack]
    some ({ irn with states := irn.states ++ seen }.moveWindow p)
  | .nack =>
      some ({ irn with states := irn.states.set ((seq - irn.baseSeq) / p) .ack }.moveWindow p)
  | .ack => some (irn.moveWindow p)

end RxIrn

/-- What `ReceiverCheckSeq` returns, from 1 to 5. -/
inductive SeqCheck where
  | ack | nack | duplicate | nackHeld | inOrder
  deriving DecidableEq, Repr

namespace RxOperation

/-- The loop of `ReceivedAll`. -/
def contiguous (p : ℕ) : ℕ → List ℕ → Bool
  | _, [] => true
  | expected, psn :: rest => decide (expected = psn) && contiguous p (add32 expected p) rest

def receivedAll (p : ℕ) (rx : RxOperation) : Bool :=
  rx.receivedLastPsnPacket && contiguous p 0 rx.receivedPsn.elems

/-- The IRN branch of `ReceiverCheckSeq`, with the expected sequence number it reports. -/
def checkSeqIrn (p : ℕ) (rx : RxOperation) (seq : ℕ) : Option (RxOperation × SeqCheck × ℕ) :=
  let expected := rx.irn.getNextSequenceNumber p
  if seq < expected ∧ rx.irn.getIrnState p seq = .ack then some (rx, .ack, 0)
  else do
    let irn ← rx.irn.updateIrnState p seq
    some ({ rx with irn := irn }, if seq ≤ expected then (.ack, 0) else (.nack, expected))

/-- The other branch of `ReceiverCheckSeq`; `expired` says whether the clock has reached
`m_nackTimer`. -/
def checkSeq (cfg : Config) (rx : RxOperation) (seq size : ℕ) (expired : Bool) :
    RxOperation × SeqCheck :=
  let expected := rx.nextExpectedSeq
  if seq = expected then
    let next := add32 expected size
    let rx := { rx with nextExpectedSeq := next }
    if rx.milestoneRx ≤ next then
      ({ rx with milestoneRx := add32 rx.milestoneRx cfg.ackInterval }, .ack)
    else (rx, if next % cfg.chunk = 0 then .ack else .inOrder)
  else if expected < seq then
    if expired ∨ rx.lastNACK ≠ expected then
      ({ rx with
        lastNACK := expected
        nextExpectedSeq := if cfg.backto0 then expected / cfg.chunk * cfg.chunk
          else expected }, .nack)
    else (rx, .nackHeld)
  else (rx, .duplicate)

def receiverCheckSeq (cfg : Config) (rx : RxOperation) (seq size : ℕ) (expired : Bool) :
    Option (RxOperation × SeqCheck × ℕ) :=
  if cfg.mode = .irn then rx.checkSeqIrn cfg.mtu seq
  else
    let (rx, x) := rx.checkSeq cfg seq size expired
    some (rx, x, 0)

/-- The packet is recorded in `m_received_psn` and `m_received_last_psn_packet`. -/
def record (rx : RxOperation) (pkt : DataPacket) : RxOperation :=
  { rx with
    receivedPsn := rx.receivedPsn.insert pkt.seq
    receivedLastPsnPacket := rx.receivedLastPsnPacket || pkt.last }

/-- How `ReceiveUdp` answers, from what `ReceiverCheckSeq` returned and whether all has arrived. -/
def answer (cfg : Config) (x : SeqCheck) (all : Bool) : SeqCheck :=
  let x := if cfg.mode = .disOrder then .ack else x
  if cfg.l4Token && !cfg.hostPerPacketAck then if all then .ack else .duplicate else x

/-- The acknowledgement `ReceiveUdp` builds. -/
def ackFor (cfg : Config) (rx : RxOperation) (pkt : DataPacket) (x : SeqCheck) (nackSeq : ℕ)
    (all : Bool) : AckPacket :=
  if cfg.mode = .irn ∧ x = .nack then ⟨.sack, pkt.seq, nackSeq, all⟩
  else
    ⟨if x = .ack then .ack else .nack, if cfg.mode = .goBackN then rx.nextExpectedSeq else pkt.seq,
      0, all⟩

end RxOperation

namespace Receiver

/-- The operation of the message, created for its first packet. -/
def operation (cfg : Config) (r : Receiver) : RxOperation :=
  r.msg.getD { milestoneRx := cfg.ackInterval }

/-- `ReceiveUdp`: the acknowledgement it sends, if any. -/
def receiveUdp (cfg : Config) (r : Receiver) (pkt : DataPacket) (expired : Bool) :
    Option (Receiver × Option AckPacket) :=
  if r.finished then some (r, none)
  else do
    let (rx, x, nackSeq) ← (r.operation cfg).receiverCheckSeq cfg pkt.seq pkt.payload expired
    let rx := rx.record pkt
    let all := rx.receivedAll cfg.mtu
    let x := RxOperation.answer cfg x all
    let checked := r.checked ++ [pkt]
    if x = .ack ∨ x = .nack then
      let done := all || (decide (cfg.mode = .irn) && decide (cfg.size ≤ rx.irn.baseSeq))
      some (⟨if done then none else some rx, done, checked⟩, some (rx.ackFor cfg pkt x nackSeq all))
    else some (⟨some rx, false, checked⟩, none)

end Receiver

end Rdma

end Pyrrha

import Pyrrha.Rdma.Data

/-!
The sender of a message: `RdmaSndOperation` with its IRN window, and what `RdmaHw` does with it when
it sends, when a timer fires and when an acknowledgement arrives. `none` is an assert that stops the
program, or a loop that never ends.
-/

namespace Pyrrha
open Lib

namespace Rdma

/-- The values of `i` in `for (; i < hi; i += p)` with a `uint32_t`; a loop of more than `2 ^ 32`
rounds repeats a value, and never ends. -/
def loop32 (p hi : ℕ) : ℕ → ℕ → Option (List ℕ)
  | 0, _ => none
  | fuel + 1, i => if i < hi then (loop32 p hi fuel (add32 i p)).map (i :: ·) else some []

/-! ### The IRN window -/

namespace SndIrn

def getNextSequenceNumber (p : ℕ) (irn : SndIrn) : ℕ :=
  (irn.baseSeq + irn.states.length * p) % 2 ^ 32

/-- The position of `seq` in the window. -/
def index (p : ℕ) (irn : SndIrn) (seq : ℕ) : ℕ := (seq - irn.baseSeq) / p

def getIrnState (p : ℕ) (irn : SndIrn) (seq : ℕ) : SndState :=
  if irn.getNextSequenceNumber p ≤ seq then .undef
  else if irn.baseSeq ≤ seq then irn.states.getD (irn.index p seq) .undef
  else .ack

/-- Whether `seq` is in the window and not acknowledged. -/
def isMissing (p : ℕ) (irn : SndIrn) (seq : ℕ) : Bool :=
  match irn.getIrnState p seq with
  | .unack | .nack => true
  | .ack | .undef => false

def getPayloadSize (p : ℕ) (irn : SndIrn) (seq : ℕ) : ℕ :=
  if irn.getNextSequenceNumber p ≤ seq ∨ seq < irn.baseSeq then 0
    else irn.payloads.getD (irn.index p seq) 0

def setSeqState (p : ℕ) (irn : SndIrn) (seq : ℕ) (state : SndState) : SndIrn :=
  { irn with states := irn.states.set (irn.index p seq) state }

def sendNewPacket (irn : SndIrn) (payload : ℕ) : SndIrn :=
  { irn with states := irn.states ++ [.unack], payloads := irn.payloads ++ [payload] }

/-- The loop of `Irn::MoveWindow`. -/
def dropAcked (p : ℕ) : List SndState → List ℕ → ℕ → List SndState × List ℕ × ℕ
  | .ack :: states, payloads, base => dropAcked p states payloads.tail (add32 base p)
  | states, payloads, base => (states, payloads, base)

def moveWindow (p : ℕ) (irn : SndIrn) : SndIrn :=
  match dropAcked p irn.states irn.payloads irn.baseSeq with
  | (states, payloads, base) => { irn with states := states, payloads := payloads, baseSeq := base }

def ackIrnState (p : ℕ) (irn : SndIrn) (seq : ℕ) : SndIrn :=
  (if irn.isMissing p seq then irn.setSeqState p seq .ack else irn).moveWindow p

/-- The loop of `SackIrnState` that marks the positions from `first` to `bound` as lost,
pointwise. -/
def markLost (irn : SndIrn) (first bound : ℕ) : SndIrn :=
  { irn with
    states := irn.states.mapIdx fun i state => if first ≤ i ∧ i < bound then .nack else state }

def sackIrnState (p : ℕ) (irn : SndIrn) (seq ack : ℕ) : SndIrn :=
  let first := sub32 ack irn.baseSeq / p
  (if irn.isMissing p seq then (irn.setSeqState p seq .ack).markLost first (irn.index p seq)
  else irn).moveWindow p

end SndIrn

/-! ### RdmaSndOperation -/

namespace SndOperation

def recover (cfg : Config) (m : SndOperation) : SndOperation :=
  { m with
    timeouted := true
    timeoutPsn := m.sentPsn
    sndNxt := if cfg.mode = .disOrder then m.sndNxt else m.sndUna }

/-- The sequence number `GetNxtPayload` picks for a packet that is sent. -/
def nextPsn (cfg : Config) (m : SndOperation) : Option (ℕ × SndOperation) :=
  let seq := m.sndNxt % 2 ^ 32
  if cfg.mode ≠ .disOrder then some (seq, m)
  else match m.timeouted && decide (cfg.size ≤ seq), m.timeoutPsn.elems with
    | true, first :: _ =>
      let rest := m.timeoutPsn.erase first
      if cfg.size ≤ first then none
      else some (first, { m with timeoutPsn := rest, timeouted := decide (rest.elems ≠ []) })
    | _, _ => some (seq, { m with sentPsn := m.sentPsn.insert seq })

/-- `GetNxtPayload` for a packet that is sent. -/
def getNxtPayload (cfg : Config) (m : SndOperation) : Option (ℕ × ℕ × SndOperation) := do
  let (seq, m) ← m.nextPsn cfg
  some (seq, if cfg.size ≤ add32 seq cfg.mtu then sub32 cfg.size seq else cfg.mtu, m)

def getBytesLeft (cfg : Config) (m : SndOperation) : ℕ :=
  let result :=
    if cfg.mode = .disOrder ∧ m.timeouted = true ∧ m.timeoutPsn.elems ≠ [] then
      let rest := cfg.size % cfg.mtu
      if rest ≠ 0 then
        (m.timeoutPsn.elems.length - 1) * cfg.mtu +
          (if cfg.size - rest ∈ m.timeoutPsn then rest else cfg.mtu)
      else m.timeoutPsn.elems.length * cfg.mtu
    else cfg.size - m.sndNxt
  if cfg.mode = .irn then result + m.irn.rtxSeqQueues.length else result

def isFinished (cfg : Config) (m : SndOperation) : Bool :=
  if cfg.mode = .disOrder then m.receivedLastAck else decide (cfg.size ≤ m.sndUna)

/-- `Acknowledge` with `UpdateReceivedACK`. -/
def acknowledge (cfg : Config) (m : SndOperation) (ack : ℕ) (isLast : Bool) : SndOperation :=
  if cfg.mode = .disOrder then
    let m :=
      if ack ∈ m.sentPsn then
        let sent := m.sentPsn.erase ack
        { m with
          sentPsn := sent
          timeoutPsn := m.timeoutPsn.erase ack
          sndUna := sent.elems.head?.getD m.sndNxt }
      else m
    { m with receivedLastAck := m.receivedLastAck || isLast }
  else if m.sndUna < ack then { m with sndUna := ack }
  else m

end SndOperation

/-! ### RdmaHw -/

namespace Sender

def msgComplete (s : Sender) : Sender := { s with finished := true }

/-- `MoveRdmaOperationToSending` of a message that is not being sent; a completed one is not
found. -/
def moveToSending (s : Sender) : Option Sender :=
  if s.isSending then some s else if s.finished then none else some { s with isSending := true }

/-- Whether `Peek` finds the message. -/
def peek (cfg : Config) (s : Sender) : Bool :=
  s.isSending && !s.finished &&
    (decide (0 < s.msg.getBytesLeft cfg) ||
      (decide (cfg.mode = .irn) && s.msg.irn.rtxSeqQueues != []))

/-- `ShouldSndData` up to rate, window and credit control. -/
def shouldSndData (cfg : Config) (s : Sender) : Sender × Bool :=
  if !s.peek cfg then (s, false)
  else if cfg.mode = .irn then
    let irn := { s.msg.irn with
      rtxSeqQueues := s.msg.irn.rtxSeqQueues.filter (s.msg.irn.isMissing cfg.mtu) }
    let s := { s with msg := { s.msg with irn := irn } }
    if s.msg.getBytesLeft cfg = 0 ∧ irn.rtxSeqQueues =
      [] then ({ s with isSending := false }, false)
    else (s, true)
  else (s, true)

/-- The retransmission loop of `GetNxtPacket`: the packet it finds, and the queue that is left. -/
def popRtx (p : ℕ) (irn : SndIrn) : List ℕ → Option ℕ × List ℕ
  | [] => (none, [])
  | seq :: rest => if irn.isMissing p seq then (some seq, rest) else popRtx p irn rest

/-- The sequence number and payload of the next packet, with the window it leaves. -/
def nextPacket (cfg : Config) (m : SndOperation) : Option (ℕ × ℕ × SndOperation) :=
  if cfg.mode = .irn then
    match popRtx cfg.mtu m.irn m.irn.rtxSeqQueues with
    | (some seq, rest) =>
      let irn := { m.irn with rtxSeqQueues := rest }
      some (seq, irn.getPayloadSize cfg.mtu seq,
        { m with irn := irn.setSeqState cfg.mtu seq .unack })
    | (none, rest) => do
      let (seq, payload, m) ← m.getNxtPayload cfg
      some (seq, payload,
        { m with irn := { m.irn with rtxSeqQueues := rest }.sendNewPacket payload })
  else m.getNxtPayload cfg

def getNxtPacket (cfg : Config) (s : Sender) : Option (Sender × DataPacket) := do
  let (seq, payload, m) ← nextPacket cfg s.msg
  let m := { m with sndNxt := if seq = m.sndNxt then m.sndNxt + payload else m.sndNxt }
  some ({ s with
    msg := m
    timers := if cfg.mode = .irn then s.timers ++ [seq] else s.timers
    isSending := decide (m.getBytesLeft cfg ≠ 0) },
      ⟨seq, payload, decide (cfg.size ≤ add32 seq cfg.mtu)⟩)

/-- `RecoverMSG` for a message whose timeout has come. -/
def recoverMSG (cfg : Config) (s : Sender) : Sender :=
  if s.finished then s else { s with msg := s.msg.recover cfg, isSending := true }

def irnTimerHandler (cfg : Config) (s : Sender) (seq : ℕ) : Sender :=
  let irn := s.msg.irn
  if irn.isMissing cfg.mtu seq then
    let irn := irn.setSeqState cfg.mtu seq .nack
    { s with
      msg := { s.msg with irn := { irn with rtxSeqQueues := irn.rtxSeqQueues ++ [seq] } }
      isSending := s.isSending || !s.finished }
  else s

/-- What `ReceiveAck` does before it looks at the kind of acknowledgement. -/
def takeAck (cfg : Config) (s : Sender) (ack : AckPacket) : Sender :=
  if cfg.ackInterval = 0 then s
  else if cfg.mode = .irn then
    let m :=
      { s.msg with irn := s.msg.irn.ackIrnState cfg.mtu ack.seq }.acknowledge cfg ack.seq ack.last
    let s := { s with msg := m }
    if cfg.size ≤ m.irn.baseSeq then s.msgComplete else s
  else
    let m := s.msg.acknowledge cfg
      (if cfg.backto0 then ack.seq / cfg.chunk * cfg.chunk else ack.seq) ack.last
    let s := { s with msg := m }
    if m.isFinished cfg then s.msgComplete else s

def receiveAck (cfg : Config) (s : Sender) (ack : AckPacket) : Option Sender :=
  if s.finished then some s
  else if cfg.mibo then if ack.last then some s.msgComplete else none
  else
    let s := s.takeAck cfg ack
    if ack.ackType = .nack ∧ cfg.nackReaction = true then
      { s with msg := s.msg.recover cfg }.moveToSending
    else some s

def receiveSack (cfg : Config) (s : Sender) (ack : AckPacket) : Option Sender :=
  if cfg.mode ≠ .irn then none
  else if s.finished then some s
  else if cfg.mibo then if ack.last then some s.msgComplete else none
  else if cfg.ackInterval = 0 then some s
  else do
    let irn := s.msg.irn.sackIrnState cfg.mtu ack.seq ack.nackSeq
    let rtx ← loop32 cfg.mtu ack.seq (2 ^ 32 + 1) ack.nackSeq
    let irn := { irn with rtxSeqQueues := irn.rtxSeqQueues ++ rtx }
    let s ← { s with msg := { s.msg with irn := irn } }.moveToSending
    some (if cfg.size ≤ irn.baseSeq then s.msgComplete else s)

/-- `Receive` for the acknowledgements of a message. -/
def receive (cfg : Config) (s : Sender) (ack : AckPacket) : Option Sender :=
  match ack.ackType with
  | .ack | .nack => s.receiveAck cfg ack
  | .sack => s.receiveSack cfg ack

end Sender

end Rdma

end Pyrrha

import Mathlib.Data.List.Sort
import Pyrrha.Lib.Checked
import Pyrrha.Rdma.QueuePair

/-!
A sender queue pair with its lists `rdma_msgs_sending`, `rdma_msgs_waiting` and `m_finished_msgs`,
and the routines that move a message from one to another. Each of them scans by sequence number.
-/

namespace Pyrrha
open Lib

namespace Rdma

/-- `Settings::msg_scheduler`. -/
inductive MsgScheduler where
  | fifo | rr
  deriving DecidableEq

/-- The settings of a queue pair that is asked for packets. -/
structure SndConfig extends QpConfig where
  msgScheduler : MsgScheduler

/-- `RdmaSndOperation` with its number and size, and the sequence numbers `IrnTimer` has been set
for. -/
structure SndMsg where
  msgSeq : ℕ
  size : ℕ
  size_lt : size < 2 ^ 32
  op : SndOperation := {}
  timers : List ℕ := []
  lastActionTime : ℕ

/-- `RdmaSndQueuePair`, with the clock; `msgCompleteCallback` is a history of the messages it was
called for. -/
structure SndQueuePair where
  now : ℕ := 0
  rdmaMsgsSending : List SndMsg := []
  rdmaMsgsWaiting : List SndMsg := []
  finishedMsgs : List SndMsg := []
  rrlastMsg : ℕ := 0
  eventTimeoutRetransmission : Option ℕ := none
  msgCompleteCallback : List ℕ := []

/-- Why the program stops: the assert of `MoveRdmaOperationToWaiting` or
`MoveRdmaOperationToSending`, that an acknowledgement is for a known message, another assert or a
loop that never ends. `disabled` is an event that is not possible. -/
inductive Halt where
  | moveToWaiting | moveToSending | unknownMessage | other | disabled
  deriving DecidableEq

def orHalt {α : Type} (e : Halt) : Option α → Except Halt α
  | some a => .ok a
  | none => .error e

theorem orHalt_some {α : Type} {x : Option α} {e : Halt} {a : α} (h : orHalt e x = .ok a) :
    x = some a := by
  cases x with
  | none => cases h
  | some b =>
    cases h
    rfl

namespace SndMsg

def cfg (q : QpConfig) (m : SndMsg) : Config := { q.cfg with size := m.size, size_lt := m.size_lt }

def bytesLeft (q : QpConfig) (m : SndMsg) : ℕ := m.op.getBytesLeft (m.cfg q)

/-- Whether the message has packets to send, as `Peek` sees it. -/
def sendable (q : QpConfig) (m : SndMsg) : Bool :=
  decide (0 < m.bytesLeft q) || (decide (q.cfg.mode = .irn) && m.op.irn.rtxSeqQueues != [])

def recover (q : QpConfig) (m : SndMsg) : SndMsg := { m with op := m.op.recover (m.cfg q) }

/-- Whether the timeout of the message has come. -/
def due (q : QpConfig) (now : ℕ) (m : SndMsg) : Bool := decide (m.lastActionTime + q.rto ≤ now)

/-- Whether `ResetMSGRTOTime` looks at the message; `none` is an assert. -/
def inflight (q : QpConfig) (m : SndMsg) : Option Bool :=
  if m.bytesLeft q ≠ 0 then some false
  else (m.op.getOnTheFly (m.cfg q)).map fun bytes => decide (bytes ≠ 0)

def withIrn (m : SndMsg) (irn : SndIrn) : SndMsg := { m with op := { m.op with irn := irn } }

@[simp] theorem withIrn_msgSeq (m : SndMsg) (irn : SndIrn) : (m.withIrn irn).msgSeq = m.msgSeq :=
  rfl

/-- The message without the packets to retransmit that have been acknowledged. -/
def cleaned (q : QpConfig) (m : SndMsg) : SndMsg :=
  m.withIrn
    { m.op.irn with rtxSeqQueues := m.op.irn.rtxSeqQueues.filter (m.op.irn.isMissing q.cfg.mtu) }

/-- The message after a packet that was picked for it. -/
def sent (q : QpConfig) (m : SndMsg) (seq payload : ℕ) (op : SndOperation) : SndMsg :=
  { m with
    op := { op with sndNxt := if seq = op.sndNxt then op.sndNxt + payload else op.sndNxt }
    timers := if q.cfg.mode = .irn then m.timers ++ [seq] else m.timers }

/-- The message after an acknowledgement, up to its kind, and whether it is complete. -/
def takeAck (q : QpConfig) (m : SndMsg) (ack : AckPacket) : SndMsg × Bool :=
  let t := ({ msg := m.op } : Sender).takeAck (m.cfg q) ack
  ({ m with op := t.msg }, t.finished)

end SndMsg

namespace SndQueuePair

def msgs (s : SndQueuePair) : List SndMsg :=
  s.rdmaMsgsSending ++ s.rdmaMsgsWaiting ++ s.finishedMsgs

/-- The message a pointer with number `k` points to becomes `m`, in whatever list it is. -/
def update (s : SndQueuePair) (k : ℕ) (m : SndMsg) : SndQueuePair :=
  let put := fun old : SndMsg => if old.msgSeq = k then m else old
  { s with
    rdmaMsgsSending := s.rdmaMsgsSending.map put
    rdmaMsgsWaiting := s.rdmaMsgsWaiting.map put
    finishedMsgs := s.finishedMsgs.map put }

def addRdmaOperation (s : SndQueuePair) (m : SndMsg) : SndQueuePair :=
  { s with rdmaMsgsSending := s.rdmaMsgsSending ++ [m] }

/-- `GetMsg`, with `is_sending`. -/
def getMsg (s : SndQueuePair) (k : ℕ) : Option (SndMsg × Bool) :=
  match s.rdmaMsgsSending.find? (·.msgSeq = k) with
  | some m => some (m, true)
  | none => (s.rdmaMsgsWaiting.find? (·.msgSeq = k)).map (·, false)

def moveRdmaOperationToWaiting (s : SndQueuePair) (k : ℕ) : Except Halt SndQueuePair :=
  match s.rdmaMsgsSending.find? (·.msgSeq = k) with
  | some curr => .ok { s with
      rdmaMsgsSending := s.rdmaMsgsSending.eraseP (·.msgSeq = k)
      rdmaMsgsWaiting := s.rdmaMsgsWaiting ++ [curr] }
  | none => .error .moveToWaiting

def moveRdmaOperationToSending (s : SndQueuePair) (k : ℕ) : Except Halt SndQueuePair :=
  match s.rdmaMsgsWaiting.find? (·.msgSeq = k) with
  | some target => .ok { s with
      rdmaMsgsWaiting := s.rdmaMsgsWaiting.eraseP (·.msgSeq = k)
      rdmaMsgsSending := s.rdmaMsgsSending ++ [target] }
  | none => .error .moveToSending

/-- `RemoveRdmaOperation`; the last message gone, the queue pair cancels its timer. -/
def removeRdmaOperation (s : SndQueuePair) (k : ℕ) : SndQueuePair :=
  let s :=
    if s.rdmaMsgsWaiting.any (·.msgSeq = k) then
      { s with rdmaMsgsWaiting := s.rdmaMsgsWaiting.eraseP (·.msgSeq = k) }
    else { s with rdmaMsgsSending := s.rdmaMsgsSending.eraseP (·.msgSeq = k) }
  { s with
    eventTimeoutRetransmission :=
      if s.rdmaMsgsSending.isEmpty && s.rdmaMsgsWaiting.isEmpty then none
        else s.eventTimeoutRetransmission }

def msgComplete (s : SndQueuePair) (m : SndMsg) : SndQueuePair :=
  if s.finishedMsgs.any (·.msgSeq = m.msgSeq) then s
  else
    let s := { s with
      msgCompleteCallback := s.msgCompleteCallback ++ [m.msgSeq] }.removeRdmaOperation m.msgSeq
    { s with finishedMsgs := s.finishedMsgs ++ [m] }

/-! ### The timer -/

/-- `all_inflight_msgs` of `ResetMSGRTOTime`. -/
def allInflightMsgs (q : QpConfig) : List SndMsg → Option (List SndMsg)
  | [] => some []
  | curr :: rest => do
    let pushed ← curr.inflight q
    let msgs ← allInflightMsgs q rest
    some (if pushed then curr :: msgs else msgs)

/-- `ResetMSGRTOTime`, with `ResetRTOEvent`. -/
def resetMSGRTOTime (q : QpConfig) (s : SndQueuePair) : Except Halt SndQueuePair := do
  let msgs ← orHalt .other (allInflightMsgs q (s.rdmaMsgsWaiting ++ s.rdmaMsgsSending))
  match (msgs.map SndMsg.lastActionTime).min? with
  | none => .ok s
  | some earliest =>
      .ok { s with eventTimeoutRetransmission := some (max (earliest + q.rto) s.now) }

/-- What follows a packet sent or an acknowledgement of the message `k`, with `rto_us`. -/
def resetLastActionTime (q : QpConfig) (s : SndQueuePair) (k : ℕ) : Except Halt SndQueuePair :=
  if q.rtoUs = 0 then .ok s
  else
    match s.msgs.find? (·.msgSeq = k) with
    | some m => (s.update k { m with lastActionTime := s.now }).resetMSGRTOTime q
    | none => .error .other

def recoverMSG (q : QpConfig) (s : SndQueuePair) : SndQueuePair :=
  let targets := (s.rdmaMsgsWaiting.filter (SndMsg.due q s.now)).map (SndMsg.recover q)
  { s with
    eventTimeoutRetransmission := none
    rdmaMsgsWaiting := s.rdmaMsgsWaiting.filter fun m => !m.due q s.now
    rdmaMsgsSending := (s.rdmaMsgsSending.map fun m => if m.due q s.now then m.recover q else m) ++
      targets.insertionSort fun a b => a.msgSeq ≤ b.msgSeq }

/-! ### Sending -/

/-- A round of `PeekFIFOMsg`. -/
def peekFIFORound (q : QpConfig) (msg : Option SndMsg) (curr : SndMsg) : Option SndMsg :=
  if curr.sendable q then
    match msg with
    | none => some curr
    | some m => if curr.msgSeq < m.msgSeq then some curr else some m
  else msg

def peekFIFOMsg (q : QpConfig) (s : SndQueuePair) : Option SndMsg :=
  s.rdmaMsgsSending.foldl (peekFIFORound q) none

def peekRRMsg (q : QpConfig) (s : SndQueuePair) : Option SndMsg :=
  (s.rdmaMsgsSending.rotate s.rrlastMsg).find? (SndMsg.sendable q)

def peek (q : SndConfig) (s : SndQueuePair) : Option SndMsg :=
  match q.msgScheduler with
  | .fifo => s.peekFIFOMsg q.toQpConfig
  | .rr => s.peekRRMsg q.toQpConfig

def getBytesLeft (q : SndConfig) (s : SndQueuePair) : ℕ :=
  ((s.peek q).map (SndMsg.bytesLeft q.toQpConfig)).getD 0

/-- `ShouldSndData` up to rate, window and credit control: the message it would send. -/
def shouldSndData (q : SndConfig) (s : SndQueuePair) : Except Halt (SndQueuePair × Option SndMsg) :=
  match s.peek q with
  | none => .ok (s, none)
  | some m =>
    if q.cfg.mode = .irn then
      let m := m.cleaned q.toQpConfig
      let s := s.update m.msgSeq m
      if m.bytesLeft q.toQpConfig = 0 ∧ m.op.irn.rtxSeqQueues = [] then do
        let s ← s.moveRdmaOperationToWaiting m.msgSeq
        .ok (s, none)
      else .ok (s, some m)
    else .ok (s, some m)

def setRRLast (s : SndQueuePair) (k : ℕ) : SndQueuePair :=
  { s with rrlastMsg := (s.rdmaMsgsSending.findIdx? (·.msgSeq = k)).getD s.rrlastMsg }

/-- A message all of whose packets are sent waits. -/
def putAside (q : QpConfig) (s : SndQueuePair) (m : SndMsg) : Except Halt SndQueuePair :=
  if m.bytesLeft q = 0 then s.moveRdmaOperationToWaiting m.msgSeq else .ok s

/-- `GetNxtPacket`: the message it takes the packet from, and the packet. -/
def getNxtPacket (q : SndConfig) (s : SndQueuePair) : Except Halt (SndQueuePair × SndMsg × DataPacket) := do
  let m ← orHalt .other (s.peek q)
  let (seq, payload, op) ← orHalt .other (Sender.nextPacket (m.cfg q.toQpConfig) m.op)
  let m := m.sent q.toQpConfig seq payload op
  let s ← ((s.update m.msgSeq m).setRRLast m.msgSeq).resetLastActionTime q.toQpConfig m.msgSeq
  let s ← s.putAside q.toQpConfig m
  .ok (s, m, ⟨seq, payload, decide (m.size ≤ add32 seq q.cfg.mtu)⟩)

/-! ### Timers and acknowledgements of a message -/

/-- What a retransmission does with a message that waits, by the flag of an earlier `GetMsg`. -/
def bringBack (s : SndQueuePair) (isSending : Bool) (k : ℕ) : Except Halt SndQueuePair :=
  if isSending then .ok s else s.moveRdmaOperationToSending k

def irnTimerHandler (q : QpConfig) (s : SndQueuePair) (k seq : ℕ) : Except Halt SndQueuePair :=
  match s.msgs.find? (·.msgSeq = k) with
  | none => .error .disabled
  | some m =>
    if seq ∉ m.timers then .error .disabled
    else if m.op.irn.isMissing q.cfg.mtu seq then
      let irn := m.op.irn.setSeqState q.cfg.mtu seq .nack
      let s := s.update k (m.withIrn { irn with rtxSeqQueues := irn.rtxSeqQueues ++ [seq] })
      s.bringBack ((s.getMsg k).all Prod.snd) k
    else .ok s

/-- The reaction of `ReceiveAck` to a NACK. -/
def takeNack (q : QpConfig) (s : SndQueuePair) (m : SndMsg) (isSending nack : Bool) :
    Except Halt SndQueuePair :=
  if nack && q.cfg.nackReaction then (s.update m.msgSeq (m.recover q)).bringBack isSending m.msgSeq
    else .ok s

def receiveAck (q : QpConfig) (s : SndQueuePair) (k : ℕ) (ack : AckPacket) :
    Except Halt SndQueuePair :=
  match s.getMsg k with
  | none => if s.finishedMsgs.any (·.msgSeq = k) then .ok s else .error .unknownMessage
  | some (m, isSending) =>
    if q.cfg.mibo then if ack.last then .ok (s.msgComplete m) else .error .other
    else do
      let (m, complete) := m.takeAck q ack
      let s := s.update k m
      let s := if complete then s.msgComplete m else s
      let s ← s.takeNack q m isSending (ack.ackType = .nack)
      s.resetLastActionTime q k

def receiveSack (q : QpConfig) (s : SndQueuePair) (k : ℕ) (ack : AckPacket) :
    Except Halt SndQueuePair :=
  if q.cfg.mode ≠ .irn then .error .other
  else
    match s.getMsg k with
    | none => if s.finishedMsgs.any (·.msgSeq = k) then .ok s else .error .unknownMessage
    | some (m, isSending) =>
      if q.cfg.mibo then if ack.last then .ok (s.msgComplete m) else .error .other
      else if q.cfg.ackInterval = 0 then .ok s
      else do
        let irn := m.op.irn.sackIrnState q.cfg.mtu ack.seq ack.nackSeq
        let rtx ← orHalt .other (loop32 q.cfg.mtu ack.seq (2 ^ 32 + 1) ack.nackSeq)
        let m := m.withIrn { irn with rtxSeqQueues := irn.rtxSeqQueues ++ rtx }
        let s := s.update k m
        let s ← s.bringBack isSending k
        .ok (if m.size ≤ irn.baseSeq then s.msgComplete m else s)

/-- `Receive` for the acknowledgements of a message. -/
def receive (q : QpConfig) (s : SndQueuePair) (k : ℕ) (ack : AckPacket) :
    Except Halt SndQueuePair :=
  match ack.ackType with
  | .ack | .nack => s.receiveAck q k ack
  | .sack => s.receiveSack q k ack

end SndQueuePair

end Rdma

end Pyrrha

import Pyrrha.Rdma.Credits

/-!
A sender queue pair that is driven by the tokens of its receiver. In its scheduled phase every
packet has to be paid for with credits; in the unscheduled phase, if there is one, some packets may
be sent without.
-/

namespace Pyrrha
open Lib

namespace Rdma

/-- The settings of receiver-driven tokens without IRN. `rcvTkn` is `m_turn_sch_phase_mode ==
RCV_TKN`, `resetQpRate` is `reset_qp_rate`, and `header` is what the headers add to a payload:
`GetUdpHeaderSize()`, 20 and 38. -/
structure TokenConfig extends SndConfig where
  notIrn : cfg.mode ≠ .irn
  l4Token : cfg.l4Token = true
  maxUnschCount : ℕ
  maxBdp : ℕ
  rcvTkn : Bool
  resetQpRate : Bool
  creditEmin : ℕ
  creditEmax : ℕ
  header : ℕ
  packet_lt : cfg.mtu + header < 2 ^ 32

/-- The queue pair with its `m_credits`, whether `m_status` has `IS_SCH`, and `m_unschCount`. -/
structure TokenSender where
  qp : SndQueuePair := {}
  credits : List Credit := []
  status : Bool := false
  unschCount : ℕ := 0

/-- `poll` is a call of `ShouldSndData` alone. `draws` are the outcomes of the random draws of
`RefreshCredit`. Any acknowledgement may arrive. -/
inductive TokenEvent where
  | add (msgSeq size : ℕ)
  | tick (t : ℕ)
  | timeout
  | tokenArrives (number : ℕ) (ecn : Bool)
  | poll (draws : List Bool)
  | send (draws : List Bool)
  | ackArrives (msgSeq : ℕ) (ack : AckPacket) (draws : List Bool)

namespace TokenSender

variable (c : TokenConfig)

/-- `m_maxUnschCount * Settings::max_bdp`. -/
def unschLimit : ℕ := c.maxUnschCount * c.maxBdp % 2 ^ 32

def isSch (s : TokenSender) : Bool := decide (c.maxUnschCount = 0) || s.status

def turnToUnsch (s : TokenSender) : TokenSender := { s with status := false, unschCount := 0 }

def turnToSch (s : TokenSender) : TokenSender := { s with status := true }

/-- `GetMsgNumber` is 0. -/
def idle (s : TokenSender) : Bool := s.qp.rdmaMsgsSending.isEmpty && s.qp.rdmaMsgsWaiting.isEmpty

def refreshCredit (s : TokenSender) (draws : List Bool) : TokenSender :=
  let s := { s with credits := dropExpired c.creditEmin c.creditEmax s.qp.now draws s.credits }
  if s.credits.isEmpty && s.idle then s.turnToUnsch else s

def storeCredit (s : TokenSender) (number : ℕ) (ecn : Bool) : TokenSender :=
  let s := { s with credits := s.credits ++ [⟨s.qp.now, number, c.cfg.mtu, ecn⟩] }
  if c.rcvTkn then s.turnToSch else s

/-- The credit control of `ShouldSndData`, for a packet of this payload. -/
def affords (credits : List Credit) (payload : ℕ) : Bool :=
  match credits with
  | [] => false
  | front :: rest => decide (payload ≤ front.remain) || !rest.isEmpty

/-- `ShouldSndData`: whether it allows a packet. -/
def shouldSndData (s : TokenSender) (draws : List Bool) : Except EpHalt (TokenSender × Bool) := do
  let (qp, ready) ← (s.qp.shouldSndData c.toSndConfig).mapError .halt
  let s := { s with qp := qp }
  match ready with
  | none => .ok (s, false)
  | some m =>
    if s.isSch c then
      let s := s.refreshCredit c draws
      .ok (s, affords s.credits (m.op.checkPayload (m.cfg c.toQpConfig)))
    else .ok (s, decide (s.unschCount < unschLimit c))

/-- `SendingData`, for a packet with this payload; it gets the payload back from `GetSize`. -/
def sendingData (s : TokenSender) (payload : ℕ) : Except EpHalt TokenSender :=
  let size := add32 payload c.header
  if s.isSch c then do
    let (credits, _, _) ← Rdma.sendingData s.credits (sub32 size c.header)
    .ok { s with credits := credits }
  else
    let s := { s with unschCount := add32 s.unschCount size }
    .ok (if unschLimit c ≤ s.unschCount then s.turnToSch else s)

/-- `ResetQP`, up to rates. -/
def resetQP (s : TokenSender) : TokenSender :=
  if c.cfg.mibo then { s with status := false, unschCount := 0, credits := [] } else s

def getNxtPacket (s : TokenSender) : Except EpHalt TokenSender := do
  let (qp, m, pkt) ← (s.qp.getNxtPacket c.toSndConfig).mapError .halt
  let s ← { s with qp := qp }.sendingData c pkt.payload
  .ok (if c.resetQpRate && decide (m.bytesLeft c.toQpConfig = 0) then s.resetQP c else s)

/-- `ReceiveAck`. -/
def ackArrives (s : TokenSender) (k : ℕ) (ack : AckPacket) (draws : List Bool) : Except EpHalt TokenSender := do
  let known := (s.qp.getMsg k).isSome
  let qp ← (s.qp.receive c.toQpConfig k ack).mapError .halt
  let s := { s with qp := qp }
  .ok (if c.cfg.mibo && known then s.refreshCredit c draws else s)

def step (s : TokenSender) : TokenEvent → Except EpHalt TokenSender
  | .add msgSeq size =>
    if h : size < 2 ^ 32 then
      .ok { s with qp := s.qp.addRdmaOperation ⟨msgSeq, size, h, {}, [], s.qp.now⟩ }
    else .error (.halt .disabled)
  | .tick t =>
    if s.qp.now ≤ t ∧ ∀ e ∈ s.qp.eventTimeoutRetransmission, t ≤ e then
      .ok { s with qp := { s.qp with now := t } }
    else .error (.halt .disabled)
  | .timeout =>
    if s.qp.eventTimeoutRetransmission =
      some s.qp.now then .ok { s with qp := s.qp.recoverMSG c.toQpConfig }
    else .error (.halt .disabled)
  | .tokenArrives number ecn => .ok (s.storeCredit c number ecn)
  | .poll draws => (s.shouldSndData c draws).map Prod.fst
  | .send draws => do
    let (s, allowed) ← s.shouldSndData c draws
    if allowed then s.getNxtPacket c else .error (.halt .disabled)
  | .ackArrives k ack draws => s.ackArrives c k ack draws

/-- The states of all runs. -/
inductive Reachable : TokenSender → Prop where
  | initial : Reachable {}
  | step {s t : TokenSender} {ev : TokenEvent} : Reachable s → s.step c ev = .ok t → Reachable t

def run (s : TokenSender) (evs : List TokenEvent) : Except EpHalt TokenSender :=
  evs.foldlM (step c) s

theorem reachable_run {s t : TokenSender} {evs : List TokenEvent} (start : Reachable c s)
    (ends : run c s evs = .ok t) : Reachable c t :=
  foldlM_preserves (fun _ _ _ _ reached call => .step reached call) start ends

end TokenSender

end Rdma

end Pyrrha

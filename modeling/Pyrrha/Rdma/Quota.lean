import Pyrrha.Lib.Tally
import Pyrrha.Rdma.Places

/-!
The quota for unscheduled packets of a host: the queue pairs of its `RdmaHw`, their receivers and
the network, which neither loses nor repeats packets. Only with `AllowDisOrder()` does it reorder
those of a queue pair.
-/

namespace Pyrrha
open Lib

namespace Rdma

/-- The settings of a host with `n` queue pairs, `dst k` being the destination of a queue pair and
of its messages. In `quota_mode` 2, `perDst`, every destination has a quota; the mode is 1
otherwise. `header` is `GetWholeHeaderSize`. -/
structure QuotaConfig extends SndConfig where
  n : ℕ
  dst : Fin n → ℕ
  perDst : Bool
  freeToken : ℕ
  quotaNum : ℕ
  header : ℕ
  packet_lt : cfg.mtu + header < 2 ^ 32

/-- A data packet in flight with its queue pair and its `UschTag`. -/
structure MarkedData (n : ℕ) where
  qp : Fin n
  flight : DataFlight
  usch : Option ℕ

/-- An acknowledgement in flight; `payload` is a history, that of the data packet it answers. -/
structure MarkedAck (n : ℕ) where
  qp : Fin n
  msgSeq : ℕ
  ack : AckPacket
  usch : Option ℕ
  payload : ℕ

/-- A queue pair with `m_nxt_psn` and its receivers; `added` is a history of its messages. -/
structure QuotaPair where
  qp : SndQueuePair := {}
  nxtPsn : ℕ := 0
  rcvs : ℕ → Receiver := fun _ => {}
  added : List ℕ := []

/-- `allowed` stands for rate, window and flow control, `expired` for the clock of the receiver. -/
inductive QuotaEvent (n : ℕ) where
  | add (k : Fin n) (msgSeq size : ℕ)
  | tick (t : ℕ)
  | timeout (k : Fin n)
  | irnTimer (k : Fin n) (msgSeq seq : ℕ)
  | send (k : Fin n) (allowed : Bool)
  | dataArrives (i : ℕ) (expired : Bool)
  | ackArrives (i : ℕ)

namespace QuotaConfig

def setQuota (c : QuotaConfig) : ℕ := c.freeToken * (c.cfg.mtu + c.header) * c.quotaNum % 2 ^ 32

/-- `Settings::free_token * m_mtu`. -/
def uschLimit (c : QuotaConfig) : ℕ := c.freeToken * c.cfg.mtu % 2 ^ 32

/-- The size `AddUschTag` gives the tag of a packet, which depends on the message that the queue
pair would send from next and on the `m_nxt_psn` behind the packet. -/
def uschTag (c : QuotaConfig) (qp : SndQueuePair) (nxtPsn : ℕ) : Option ℕ :=
  let left := qp.getBytesLeft c.toSndConfig % 2 ^ 32
  if 0 < left ∧ nxtPsn < c.uschLimit then some (min left c.cfg.mtu) else none

end QuotaConfig

/-- `RdmaHw` with its queue pairs and the network. -/
structure QuotaHost (c : QuotaConfig) where
  quota : ℕ := c.setQuota
  quotaDsts : ℕ → ℕ := fun _ => c.setQuota
  pairs : Fin c.n → QuotaPair := fun _ => {}
  data : List (MarkedData c.n) := []
  acks : List (MarkedAck c.n) := []

namespace QuotaHost

variable {c : QuotaConfig}

/-- The quota that a packet to `d` is charged to. -/
def left (s : QuotaHost c) (d : ℕ) : ℕ := if c.perDst then s.quotaDsts d else s.quota

def checkUschQuota (s : QuotaHost c) (k : Fin c.n) : Bool :=
  let left := (s.pairs k).qp.getBytesLeft c.toSndConfig % 2 ^ 32
  if 0 < left ∧ (s.pairs k).nxtPsn < c.uschLimit then
    decide (add32 (min left c.cfg.mtu) c.header ≤ s.left (c.dst k))
  else true

def updateQuota (s : QuotaHost c) (size : ℕ) (isadd : Bool) (d : ℕ) : QuotaHost c :=
  let size := add32 size c.header
  let change := fun quota => if isadd then add32 quota size else sub32 quota size
  if c.perDst then { s with quotaDsts := Function.update s.quotaDsts d (change (s.quotaDsts d)) }
  else { s with quota := change s.quota }

/-- `UpdateQuota` for a packet that may have an `UschTag`. -/
def updateTagged (s : QuotaHost c) (usch : Option ℕ) (isadd : Bool) (d : ℕ) : QuotaHost c :=
  match usch with
  | some size => s.updateQuota size isadd d
  | none => s

def withPair (s : QuotaHost c) (k : Fin c.n) (p : QuotaPair) : QuotaHost c :=
  { s with pairs := Function.update s.pairs k p }

def withQp (s : QuotaHost c) (k : Fin c.n) (qp : SndQueuePair) : QuotaHost c :=
  s.withPair k { s.pairs k with qp := qp }

/-- The message that `GetNxtPacket` takes a packet from, its payload and the message it leaves, up
to `snd_nxt`. -/
def pickNxt (c : QuotaConfig) (qp : SndQueuePair) : Option (SndMsg × ℕ × SndMsg) := do
  let m ← qp.peek c.toSndConfig
  let (_, payload, op) ← Sender.nextPacket (m.cfg c.toQpConfig) m.op
  some (m, payload, { m with op := op })

/-- `GetNxtPacket`, with `AddUschTag`. -/
def getNxtPacket (s : QuotaHost c) (k : Fin c.n) : Except Halt (QuotaHost c) := do
  let p := s.pairs k
  let (m, payload, m') ← orHalt .other (pickNxt c p.qp)
  let nxtPsn := add32 p.nxtPsn payload
  let usch := c.uschTag (p.qp.update m.msgSeq m') nxtPsn
  let (qp, m, pkt) ← p.qp.getNxtPacket c.toSndConfig
  let s := (s.withPair k { p with qp := qp, nxtPsn := nxtPsn }).updateTagged usch false (c.dst k)
  .ok { s with data := s.data ++ [⟨k, ⟨m.msgSeq, m.size, m.size_lt, pkt⟩, usch⟩] }

/-- The device asks the queue pair for a packet. -/
def send (s : QuotaHost c) (k : Fin c.n) (allowed : Bool) : Except Halt (QuotaHost c) := do
  let (qp, ready) ← (s.pairs k).qp.shouldSndData c.toSndConfig
  let s := s.withQp k qp
  if ready.isSome && s.checkUschQuota k && allowed then s.getNxtPacket k else .ok s

/-- Whether the network may deliver the packet at position `i`, `qps` being the queue pairs of the
packets. -/
def deliverable (c : QuotaConfig) (qps : List (Fin c.n)) (i : ℕ) : Bool :=
  decide (c.cfg.mode = .disOrder) || decide (qps[i]?.all fun k => k ∉ qps.take i)

/-- The settings of the message of a packet. -/
def msgConfig (c : QuotaConfig) (x : DataFlight) : Config :=
  { c.cfg with size := x.size, size_lt := x.size_lt }

/-- `ReceiveUdp` at the destination; the acknowledgement takes over the `UschTag`. -/
def dataArrives (s : QuotaHost c) (i : ℕ) (expired : Bool) : Except Halt (QuotaHost c) := do
  let x ← orHalt .disabled (if deliverable c (s.data.map MarkedData.qp) i then s.data[i]? else none)
  let p := s.pairs x.qp
  let k := x.flight.msgSeq
  let cfg := msgConfig c x.flight
  let (rcv, ack) ← orHalt .other ((p.rcvs k).receiveUdp cfg x.flight.pkt expired)
  let s := s.withPair x.qp { p with rcvs := Function.update p.rcvs k rcv }
  .ok { s with
    data := s.data.eraseIdx i
    acks := s.acks ++ ack.toList.map fun ack => ⟨x.qp, k, ack, x.usch, x.flight.pkt.payload⟩ }

/-- `ReceiveAck` or `ReceiveSack`; an acknowledgement of a finished message is not looked at. -/
def ackArrives (s : QuotaHost c) (i : ℕ) : Except Halt (QuotaHost c) := do
  let x ← orHalt .disabled (if deliverable c (s.acks.map MarkedAck.qp) i then s.acks[i]? else none)
  let p := s.pairs x.qp
  let s := if (p.qp.getMsg x.msgSeq).isSome then s.updateTagged x.usch true (c.dst x.qp) else s
  let qp ← p.qp.receive c.toQpConfig x.msgSeq x.ack
  .ok { s.withQp x.qp qp with acks := s.acks.eraseIdx i }

def step (s : QuotaHost c) : QuotaEvent c.n → Except Halt (QuotaHost c)
  | .add k msgSeq size =>
    let p := s.pairs k
    if h : size < 2 ^ 32 ∧ msgSeq ∉ p.added then
      .ok (s.withPair k { p with
        qp := p.qp.addRdmaOperation ⟨msgSeq, size, h.1, {}, [], p.qp.now⟩
        added := p.added ++ [msgSeq] })
    else .error .disabled
  | .tick t =>
    if ∀ k, (s.pairs k).qp.now ≤ t ∧ ∀ e ∈ (s.pairs k).qp.eventTimeoutRetransmission, t ≤ e then
      .ok { s with pairs := fun k => { s.pairs k with qp := { (s.pairs k).qp with now := t } } }
    else .error .disabled
  | .timeout k =>
    let qp := (s.pairs k).qp
    if qp.eventTimeoutRetransmission =
      some qp.now then .ok (s.withQp k (qp.recoverMSG c.toQpConfig))
    else .error .disabled
  | .irnTimer k msgSeq seq => do
    let qp ← (s.pairs k).qp.irnTimerHandler c.toQpConfig msgSeq seq
    .ok (s.withQp k qp)
  | .send k allowed => s.send k allowed
  | .dataArrives i expired => s.dataArrives i expired
  | .ackArrives i => s.ackArrives i

/-- The states of the runs all of whose steps satisfy `allowed`. -/
inductive Reachable (c : QuotaConfig) (allowed : QuotaHost c → QuotaEvent c.n → Prop) :
    QuotaHost c → Prop where
  | initial : Reachable c allowed {}
  | step {s t : QuotaHost c} {ev : QuotaEvent c.n} : Reachable c allowed s → allowed s ev →
      s.step ev = .ok t → Reachable c allowed t

/-- The run of a list of events, as long as they are `allowed`. -/
def run (allowed : QuotaHost c → QuotaEvent c.n → Prop) [∀ s ev, Decidable (allowed s ev)]
    (s : QuotaHost c) (evs : List (QuotaEvent c.n)) : Except Halt (QuotaHost c) :=
  evs.foldlM (fun s ev => if allowed s ev then s.step ev else .error .disabled) s

theorem reachable_run {allowed : QuotaHost c → QuotaEvent c.n → Prop}
    [∀ s ev, Decidable (allowed s ev)]
    {s t : QuotaHost c} {evs : List (QuotaEvent c.n)} (start : Reachable c allowed s)
    (ends : run allowed s evs = .ok t) : Reachable c allowed t := by
  refine foldlM_preserves (fun ev _ before after reached call => ?_) start ends
  split at call
  · rename_i ok
    exact .step reached ok call
  · cases call

end QuotaHost

end Rdma

end Pyrrha

import Pyrrha.Rdma.Places

/-!
A queue pair under ExpressPass: the receiver sends credits, and every data packet uses them up and
carries the number of one. `IsSch` holds of the queue pair, for ExpressPass has no unscheduled
phase.
-/

namespace Pyrrha
open Lib

namespace Rdma

/-- The settings of ExpressPass: `m_credit_Emin` and `m_credit_Emax`, and whether `host_cnp` is
`PIGGY_CNP`. -/
structure EpConfig extends SndConfig where
  creditEmin : ℕ
  creditEmax : ℕ
  piggyCnp : Bool
  l4Token : cfg.l4Token = true
  noMibo : cfg.mibo = false

/-- `Credit`. Credits are numbered without wrapping around. -/
structure Credit where
  rcvTime : ℕ
  number : ℕ
  remain : ℕ
  ecn : Bool := false
  deriving DecidableEq

/-- A data packet in flight with its `TokenTag`, and whether its IP header is marked. -/
structure TaggedData where
  flight : DataFlight
  tag : ℕ
  marked : Bool

/-- Why the program stops: `front` or `pop` of the empty `m_sent_credits`, `front` of the empty
`m_credits`, or something that has nothing to do with credits. -/
inductive EpHalt where
  | sentCreditsEmpty | creditsEmpty
  | halt (h : Halt)
  deriving DecidableEq

/-- The two ends of a queue pair and what is in flight between them. Data packets and tokens stay in
order. The last three fields are histories: the number and size of each message, the tags of the
data packets in the order they were sent, and the credit that the last of them has left partly
unused. -/
structure CreditExchange where
  qp : SndQueuePair := {}
  credits : List Credit := []
  rcvs : ℕ → Receiver := fun _ => {}
  tknNxt : ℕ := 0
  sentCredits : List Credit := []
  data : List TaggedData := []
  acks : List (ℕ × AckPacket) := []
  tokens : List ℕ := []
  reqs : List ℕ := []
  added : List (ℕ × ℕ) := []
  tags : List ℕ := []
  unspent : Option ℕ := none

/-- `poll` is a call of `ShouldSndData` alone; rates and timers decide when a packet or a token is
sent, and are left open. `draws` are the outcomes of the random draws of `RefreshCredit`. -/
inductive EpEvent where
  | add (msgSeq size : ℕ)
  | tick (t : ℕ)
  | timeout
  | irnTimer (msgSeq seq : ℕ)
  | poll (draws : List Bool)
  | send (draws : List Bool)
  | dataArrives (expired : Bool)
  | ackArrives (i : ℕ)
  | loseAck (i : ℕ)
  | reqArrives (i : ℕ)
  | sendToken
  | tokenArrives (ecn : Bool)
  | loseToken (i : ℕ)
  deriving DecidableEq

/-- The number of a credit as a `uint32_t`. -/
def Credit.getPSN (c : Credit) : ℕ := c.number % 2 ^ 32

/-- The payload `GetNxtPayload` computes for a packet that is not sent. -/
def SndOperation.checkPayload (cfg : Config) (m : SndOperation) : ℕ :=
  let nxt := m.sndNxt % 2 ^ 32
  let seq :=
    if cfg.mode = .disOrder ∧ cfg.size ≤ nxt ∧
      m.timeouted = true then m.timeoutPsn.elems.head?.getD nxt else nxt
  if cfg.size ≤ add32 seq cfg.mtu then sub32 cfg.size seq else cfg.mtu

/-! ### Credits at the sender -/

/-- The loop of `RefreshCredit`, with the bounds `m_credit_Emin` and `m_credit_Emax`. -/
def dropExpired (emin emax now : ℕ) : List Bool → List Credit → List Credit
  | _, [] => []
  | draws, credit :: rest =>
    let interval := (now - credit.rcvTime) / 1000
    if interval < emin then credit :: rest
    else if emax < interval then dropExpired emin emax now draws rest
    else if draws.headD false then dropExpired emin emax now draws.tail rest
    else credit :: rest

theorem dropExpired_suffix (emin emax now : ℕ) (draws : List Bool) (l : List Credit) :
    dropExpired emin emax now draws l <:+ l := by
  induction l generalizing draws with
  | nil =>
    unfold dropExpired
    exact List.suffix_refl _
  | cons credit rest ih =>
    unfold dropExpired
    dsimp only
    split
    · exact List.suffix_refl _
    · split
      · exact (ih draws).trans (List.suffix_cons _ _)
      · split
        · exact (ih _).trans (List.suffix_cons _ _)
        · exact List.suffix_refl _

/-- `RefreshCredit` under ExpressPass, where the loop is all of it. -/
def refreshCredit (c : EpConfig) (now : ℕ) (draws : List Bool) (credits : List Credit) :
    List Credit :=
  dropExpired c.creditEmin c.creditEmax now draws credits

/-- The loop of `SendingData`: the credits that are left, `last_tkn_psn` and `ecn`. -/
def spendCredits : List Credit → ℕ → ℕ → Bool → Except EpHalt (List Credit × ℕ × Bool)
  | [], payload, lastTknPsn, ecn =>
      if payload = 0 then .ok ([], lastTknPsn, ecn) else .error .creditsEmpty
  | credit :: rest, payload, lastTknPsn, ecn =>
    if payload = 0 then .ok (credit :: rest, lastTknPsn, ecn)
    else if credit.remain ≤ payload then
      spendCredits rest (payload - credit.remain) credit.getPSN (ecn || credit.ecn)
    else .ok ({ credit with remain := credit.remain - payload } :: rest, lastTknPsn, ecn)

def sendingData (credits : List Credit) (payload : ℕ) : Except EpHalt (List Credit × ℕ × Bool) :=
  match credits with
  | [] => .error .creditsEmpty
  | front :: rest =>
    if payload = 0 then .error (.halt .other)
      else spendCredits (front :: rest) payload front.getPSN front.ecn

/-! ### Credits at the receiver -/

/-- `ReceiveDataEP`: the credits that are left in `m_sent_credits`. -/
def receiveDataEP (psn : ℕ) : List Credit → Except EpHalt (List Credit)
  | [] => .error .sentCreditsEmpty
  | credit :: rest => if credit.getPSN = psn then .ok rest else receiveDataEP psn rest

namespace CreditExchange

/-- `GetUnfinishedNum` is not zero. -/
def unfinished (c : EpConfig) (s : CreditExchange) : Bool :=
  s.added.any fun m => (s.rcvs m.1).msg.any fun rx => !rx.receivedAll c.cfg.mtu

def withQp (s : CreditExchange) (qp : Except Halt SndQueuePair) : Except EpHalt CreditExchange :=
  (qp.mapError EpHalt.halt).map fun qp => { s with qp := qp }

/-- `ShouldSndData`: whether it allows a packet. -/
def shouldSndData (c : EpConfig) (s : CreditExchange) (draws : List Bool) :
    Except EpHalt (CreditExchange × Bool) := do
  let (qp, ready) ← (s.qp.shouldSndData c.toSndConfig).mapError .halt
  match ready with
  | none => .ok ({ s with qp := qp }, false)
  | some m =>
    let credits := refreshCredit c s.qp.now draws s.credits
    .ok ({ s with qp := qp, credits := credits },
      match credits with
      | [] => false
      | front :: rest =>
          decide (m.op.checkPayload (m.cfg c.toQpConfig) ≤ front.remain) || !rest.isEmpty)

/-- `GetNxtPacket`, with `SendingData`. -/
def getNxtPacket (c : EpConfig) (s : CreditExchange) : Except EpHalt CreditExchange := do
  let (qp, m, pkt) ← (s.qp.getNxtPacket c.toSndConfig).mapError .halt
  let (credits, psn, ecn) ← sendingData s.credits pkt.payload
  .ok { s with
    qp := qp
    credits := credits
    data := s.data ++ [⟨⟨m.msgSeq, m.size, m.size_lt, pkt⟩, psn, ecn && c.piggyCnp⟩]
    tags := s.tags ++ [psn]
    unspent := s.credits.head?.bind fun front =>
      if pkt.payload < front.remain then some front.number else none }

/-- What `ReceiveUdp` does with a `TokenTag`; it returns early from a packet of a finished
message. -/
def takeTag (s : CreditExchange) (d : TaggedData) : Except EpHalt (List Credit) :=
  if (s.rcvs d.flight.msgSeq).finished then .ok s.sentCredits else receiveDataEP d.tag s.sentCredits

/-- `ReceiveUdp`. -/
def dataArrives (c : EpConfig) (s : CreditExchange) (expired : Bool) :
    Except EpHalt CreditExchange :=
  match s.data with
  | [] => .error (.halt .disabled)
  | d :: data => do
    let k := d.flight.msgSeq
    let cfg := { c.cfg with size := d.flight.size, size_lt := d.flight.size_lt }
    let (rcv, ack) ← (orHalt .other ((s.rcvs k).receiveUdp cfg d.flight.pkt expired)).mapError .halt
    let sent ← s.takeTag d
    .ok { s with
      rcvs := Function.update s.rcvs k rcv
      sentCredits := sent
      data := data
      acks := s.acks ++ ack.toList.map (k, ·) }

/-- `ReceiveReq`. -/
def reqArrives (c : EpConfig) (s : CreditExchange) (i : ℕ) : Except EpHalt CreditExchange := do
  let k ← (orHalt .disabled s.reqs[i]?).mapError .halt
  let rcv := s.rcvs k
  .ok { s with
    rcvs := Function.update s.rcvs k
      (if rcv.finished then rcv else { rcv with msg := some (rcv.operation c.cfg) })
    reqs := s.reqs.eraseIdx i }

def step (c : EpConfig) (s : CreditExchange) : EpEvent → Except EpHalt CreditExchange
  | .add msgSeq size =>
    if h : size < 2 ^ 32 ∧ msgSeq ∉ s.added.map Prod.fst then
      .ok { s with
        qp := s.qp.addRdmaOperation ⟨msgSeq, size, h.1, {}, [], s.qp.now⟩
        reqs := s.reqs ++ [msgSeq]
        added := s.added ++ [(msgSeq, size)] }
    else .error (.halt .disabled)
  | .tick t =>
    if s.qp.now ≤ t ∧ ∀ e ∈ s.qp.eventTimeoutRetransmission, t ≤ e then
      .ok { s with qp := { s.qp with now := t } }
    else .error (.halt .disabled)
  | .timeout =>
    if s.qp.eventTimeoutRetransmission =
      some s.qp.now then .ok { s with qp := s.qp.recoverMSG c.toQpConfig }
    else .error (.halt .disabled)
  | .irnTimer k seq => s.withQp (s.qp.irnTimerHandler c.toQpConfig k seq)
  | .poll draws => (s.shouldSndData c draws).map Prod.fst
  | .send draws => do
    let (s, allowed) ← s.shouldSndData c draws
    if allowed then s.getNxtPacket c else .error (.halt .disabled)
  | .dataArrives expired => s.dataArrives c expired
  | .ackArrives i => do
    let (k, ack) ← (orHalt .disabled s.acks[i]?).mapError .halt
    { s with acks := s.acks.eraseIdx i }.withQp (s.qp.receive c.toQpConfig k ack)
  | .loseAck i => .ok { s with acks := s.acks.eraseIdx i }
  | .reqArrives i => s.reqArrives c i
  | .sendToken =>
    -- `GetTknPacket`, and `SentCreditEP` when it is on the wire
    if s.unfinished c then
      .ok { s with
        tknNxt := s.tknNxt + 1
        sentCredits := s.sentCredits ++ [⟨s.qp.now, s.tknNxt, c.cfg.mtu, false⟩]
        tokens := s.tokens ++ [s.tknNxt] }
    else .error (.halt .disabled)
  | .tokenArrives ecn =>
    match s.tokens with
    | [] => .error (.halt .disabled)
    | number :: tokens =>
      -- `StoreCredit`
      .ok { s with credits := s.credits ++ [⟨s.qp.now, number, c.cfg.mtu, ecn⟩], tokens := tokens }
  | .loseToken i => .ok { s with tokens := s.tokens.eraseIdx i }

/-- The states of the runs all of whose steps satisfy `allowed`. -/
inductive Reachable (c : EpConfig) (allowed : CreditExchange → EpEvent → Prop) :
    CreditExchange → Prop where
  | initial : Reachable c allowed {}
  | step {s t : CreditExchange} {ev : EpEvent} : Reachable c allowed s → allowed s ev →
      s.step c ev = .ok t → Reachable c allowed t

/-- The run of a list of events, as long as they are `allowed`. -/
def run (c : EpConfig) (allowed : CreditExchange → EpEvent → Prop)
    [∀ s ev, Decidable (allowed s ev)]
    (s : CreditExchange) (evs : List EpEvent) : Except EpHalt CreditExchange :=
  evs.foldlM (fun s ev => if allowed s ev then s.step c ev else .error (.halt .disabled)) s

theorem reachable_run {c : EpConfig} {allowed : CreditExchange → EpEvent → Prop}
    [∀ s ev, Decidable (allowed s ev)] {s t : CreditExchange} {evs : List EpEvent}
    (start : Reachable c allowed s)
    (ends : run c allowed s evs = .ok t) : Reachable c allowed t := by
  refine foldlM_preserves (fun ev _ before after reached call => ?_) start ends
  split at call
  · rename_i ok
    exact .step reached ok call
  · cases call

end CreditExchange

end Rdma

end Pyrrha

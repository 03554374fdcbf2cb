import Pyrrha.Floodgate.CreditSends

/-!
How a downstream switch answers a SYN. In the link-by-link scope an upstream is a port; in the scope
of ToRs it is a rack, and both ends compute it from the addresses of a packet.
-/

namespace Pyrrha
open Lib

namespace Floodgate

namespace Credit

variable {cfg : Config} {s t : State}

/-- A SYN as it arrives. `upstream` is the row its sender's packets are counted in, and `nodeId` the
sender's `m_id`; switches come after the hosts. `ownRack` is the rack of the receiver in the scope
of ToRs. -/
structure Syn (cfg : Config) where
  tag : SynTag
  inDev : ℕ
  inDev_lt : inDev < switchScale
  upstream : ℕ
  upstream_eq : cfg.resetOnlyToR = false → upstream = inDev
  nodeId : ℕ
  nodeId_ge : cfg.hostNum ≤ nodeId
  ownRack : ℕ
  ownRack_ne : cfg.resetOnlyToR = true → ownRack ≠ upstream
  hostPerRack_pos : 0 < cfg.hostPerRack

/-- A `SwitchACK` as it is sent: the device, in the link-by-link scope; the hosts of its addresses,
where there is no destination for the broadcast address; and `acked_size`. -/
structure SwitchAck where
  outDev : ℕ
  source : ℕ
  destination : Option ℕ
  acked : ℕ → ℕ

/-- `hostIp2IdMap[hostId2IpMap[id]]`. An id without an address gives the address of the device,
which is not one of a host, and `hostIp2IdMap` has 0 for that. -/
def Config.addressed (cfg : Config) (id : ℕ) : ℕ := if id < cfg.hostNum then id else 0

/-- The host of the source address `SendSYN` gives in the scope of ToRs. -/
def Syn.sip (syn : Syn cfg) : ℕ := cfg.addressed (syn.nodeId * cfg.hostPerRack)

/-- The host of its destination address there. -/
def Syn.dip (syn : Syn cfg) : ℕ := syn.ownRack * cfg.hostPerRack

/-- The packet reaches `upstream`: through its port, or by the address of a host in its rack. -/
def SwitchAck.Towards (cfg : Config) (ack : SwitchAck) (upstream : ℕ) : Prop :=
  if cfg.resetOnlyToR then ∃ host, ack.destination = some host ∧ host / cfg.hostPerRack = upstream
  else ack.outDev = upstream

/-- What `ResumeVOQWin` takes the packet to acknowledge for `d`. -/
def SwitchAck.entry (cfg : Config) (ack : SwitchAck) (d : ℕ) : ℕ :=
  if cfg.ackMode = .switchIngressCredit then ack.acked d
    else if ack.source = d then ack.acked 0 else 0

namespace State

/-- `m_rcv_data_psn` and `m_nxt_ack_psn` after the loop of `CheckSYN`. -/
def raised (cfg : Config) (s : State) (syntag : SynTag) (dev : ℕ) (table : ℕ → ℕ → ℕ) (x i : ℕ) :
    ℕ :=
  if x = dev ∧ i < cfg.hostNum ∧ s.rcvDataPsn dev i < (syntag i).2 then (syntag i).2 else table x i

/-- The counters `CheckSYN` leaves. -/
def raise (cfg : Config) (s : State) (syntag : SynTag) (dev : ℕ) : State :=
  { s with
    rcvDataPsn := s.raised cfg syntag dev s.rcvDataPsn
    nxtAckPsn := s.raised cfg syntag dev s.nxtAckPsn }

/-- The set `CheckSYN` returns, read from the counters it leaves. -/
def asked (cfg : Config) (s : State) (syntag : SynTag) (dev : ℕ) : List ℕ :=
  (List.range cfg.hostNum).filter fun i => (syntag i).1 < s.nxtAckPsn dev i

def checkSYN (cfg : Config) (s : State) (syntag : SynTag) (dev : ℕ) : State × List ℕ :=
  let s := s.raise cfg syntag dev
  (s, s.asked cfg syntag dev)

/-- The entry `GetDstsSwitchACKTag` sets for host `i`. -/
def dstsEntry (cfg : Config) (s : State) (dev : ℕ) (dsts : List ℕ) (i : ℕ) : ℕ :=
  if i < cfg.hostNum ∧ (s.lstAckPsn dev i < s.nxtAckPsn dev i ∨ i ∈ dsts) ∧
    s.notDelayed cfg i then s.nxtAckPsn dev i
  else 0

def getDstsSwitchACKTag (cfg : Config) (s : State) (dev : ℕ) (dsts : List ℕ) : Checked (ℕ → ℕ) :=
  if dev < switchScale ∧ cfg.ackMode = .switchIngressCredit ∧
    cfg.absolutePsn then .ok (s.dstsEntry cfg dev dsts)
  else .error .getSwitchACKTag

/-- The packet of `SendAccSwitchACK`; its source address is that of a device. -/
def accPacket (cfg : Config) (dev : ℕ) (acktag : ℕ → ℕ) : SwitchAck where
  outDev := dev
  source := 0
  destination := if cfg.resetOnlyToR then some (cfg.addressed (dev * cfg.hostPerRack)) else none
  acked := acktag

/-- The row `ReceiveSYN` takes for that of the sender. -/
def synRow (cfg : Config) (syn : Syn cfg) : ℕ := if cfg.resetOnlyToR then syn.sip / cfg.hostPerRack
    else syn.inDev

/-- The row `ReceiveSYN` reads the answer from in DST mode. -/
def replyRow (cfg : Config) (syn : Syn cfg) : ℕ :=
  if cfg.resetOnlyToR then syn.dip / cfg.hostPerRack else syn.inDev

/-- The packet it sends for `d`; the broadcast address of a SYN is the one of the answer. -/
def dstPacket (cfg : Config) (syn : Syn cfg) (d psn : ℕ) : SwitchAck where
  outDev := syn.inDev
  source := d
  destination := if cfg.resetOnlyToR then some syn.dip else none
  acked i := if i = 0 then psn else 0

/-- One round of the loop of `ReceiveSYN` in DST mode. -/
def replyDst (cfg : Config) (syn : Syn cfg) (r : State × List SwitchAck) (d : ℕ) :
    Checked (State × List SwitchAck) :=
  let psn := r.1.nxtAckPsn (replyRow cfg syn) d
  (r.1.sendSwitchACK cfg syn.inDev d psn).map fun s => (s, r.2 ++ [dstPacket cfg syn d psn])

def receiveSYN (cfg : Config) (s : State) (syn : Syn cfg) : Checked (State × List SwitchAck) :=
  let fine := synRow cfg syn
  let (s, dsts) := s.checkSYN cfg syn.tag fine
  if dsts.isEmpty then .ok (s, [])
  else
    match cfg.ackMode with
    | .switchIngressCredit => do
      let acktag ← s.getDstsSwitchACKTag cfg fine dsts
      (s.sendAccSwitchACK cfg fine acktag).map fun s => (s, [accPacket cfg fine acktag])
    | .switchDstCredit => dsts.foldlM (replyDst cfg syn) (s, [])
    | .hostPerPacketAck => .ok (s, [])

end State

end Credit

end Floodgate

end Pyrrha

import Pyrrha.Floodgate.Data

/-! The windows of `SwitchMmu`: registration, tests, debits and credits, and the PSNs of the
absolute mode. -/

namespace Pyrrha
open Lib

namespace Floodgate

namespace Config

/-- The key under which `EnsureRegisteredWin` registers `dst`: the id of its ToR in ToR-only
mode. -/
def winKey (cfg : Config) (dst : ℕ) : ℕ :=
  if cfg.ackMode ≠ .hostPerPacketAck ∧ cfg.resetOnlyToR = true then cfg.hostNum +
    dst / cfg.hostPerRack else dst

/-- The row of the PSN tables for packets of `dst` that leave through `dev`. -/
def psnRow (cfg : Config) (dev dst : ℕ) : ℕ :=
  if cfg.resetOnlyToR then dst / cfg.hostPerRack else dev

def shouldIgnore (cfg : Config) (dst : ℕ) : Checked Bool :=
  match cfg.dst2group dst with
  | none => .error .shouldIgnore
  | some .ignore => .ok true
  | some (.group _) => .ok false

end Config

namespace State

/-- What `m_wins[dst]` reads. -/
def winAt (s : State) (dst : ℕ) : ℕ := (s.wins dst).getD 0

def setWin (s : State) (dst win : ℕ) : State :=
  { s with wins := Function.update s.wins dst (some win) }

/-- The entry `m_wins[dst]` makes sure of. -/
def touchWin (s : State) (dst : ℕ) : State := s.setWin dst (s.winAt dst)

/-- One row of the sum of `GetInflightBytes`. -/
def addInflight (s : State) (dst inflight dev : ℕ) : Checked ℕ :=
  if s.nxtDataPsn dev dst < s.rcvAckPsn dev dst then .error .getInflightBytes
  else .ok (add32 inflight (s.nxtDataPsn dev dst - s.rcvAckPsn dev dst))

def getInflightBytes (s : State) (dst : ℕ) : Checked ℕ :=
  (List.range switchScale).foldlM (s.addInflight dst) 0

/-- `EnsureRegisteredWin`; the absolute mode logs the bytes in flight. -/
def ensureRegisteredWin (cfg : Config) (s : State) (dst : ℕ) : Checked State :=
  match s.wins dst with
  | some _ => .ok s
  | none =>
    match cfg.bdpMap (cfg.winKey dst) with
    | none => .error .ensureRegisteredWin
    | some win =>
      if cfg.absolutePsn then do
        let _ ← (s.setWin (cfg.winKey dst) win).getInflightBytes (cfg.winKey dst)
        .ok (s.setWin (cfg.winKey dst) win)
      else .ok (s.setWin (cfg.winKey dst) win)

def checkDstWin (cfg : Config) (s : State) (dst pktSize : ℕ) : Checked (State × Bool) := do
  let s ← s.ensureRegisteredWin cfg dst
  if cfg.absolutePsn then do
    let inflight ← s.getInflightBytes dst
    .ok (s.touchWin dst, decide (add32 inflight pktSize ≤ s.winAt dst))
  else .ok (s.touchWin dst, decide (pktSize ≤ s.winAt dst))

def checkEgressWin (cfg : Config) (s : State) (outDev pktSize : ℕ) : Bool :=
  !cfg.usePortWin || decide (pktSize ≤ s.egressWins outDev)

/-- `UpdateDstWin`; the absolute mode only logs the window and the bytes in flight. -/
def updateDstWin (cfg : Config) (s : State) (dst pktSize : ℕ) (isAdd : Bool) : Checked State := do
  let ignore ← cfg.shouldIgnore dst
  if ignore then .ok s
  else if cfg.absolutePsn then do
    let _ ← s.getInflightBytes dst
    .ok (s.touchWin dst)
  else if isAdd then
    match s.wins dst with
    | none => .error .updateDstWin
    | some win => .ok (s.setWin dst (add32 win pktSize))
  else do
    let s ← s.ensureRegisteredWin cfg dst
    .ok (s.setWin dst (sub32 (s.winAt dst) pktSize))

def updateEgressWin (cfg : Config) (s : State) (dev pktSize : ℕ) (isAdd : Bool) : State :=
  if !cfg.usePortWin then s
  else if isAdd then
    { s with egressWins := Function.update s.egressWins dev (add32 (s.egressWins dev) pktSize) }
  else { s with egressWins := Function.update s.egressWins dev (sub32 (s.egressWins dev) pktSize) }

def updateWin (cfg : Config) (s : State) (dst pktSize dev : ℕ) (isAdd : Bool) : Checked State := do
  let s ← s.updateDstWin cfg dst pktSize isAdd
  .ok (s.updateEgressWin cfg dev pktSize isAdd)

/-- `UpdateDataPSN`, with the packet and its `SwitchPSNTag`. -/
def updateDataPSN (cfg : Config) (s : State) (dev dst : ℕ) (packet : PacketUnit) :
    State × PacketUnit :=
  let psn := s.nxtDataPsn (cfg.psnRow dev dst) dst + packet.size
  ({ s with nxtDataPsn := update₂ s.nxtDataPsn (cfg.psnRow dev dst) dst psn },
    { packet with psn := some psn })

/-- `m_rcv_ack_psn[row][dst] = psn`. -/
def setRcvAck (s : State) (row dst psn : ℕ) : State :=
  { s with rcvAckPsn := update₂ s.rcvAckPsn row dst psn }

/-- The body of the loop of `RecoverWin`, for destination `i`. -/
def recoverDst (cfg : Config) (dev : ℕ) (acktag : ℕ → ℕ) (s : State) (i : ℕ) : Checked State :=
  if 0 < acktag i then
    if cfg.absolutePsn then
      let row := cfg.psnRow dev i
      if s.rcvAckPsn row i < acktag i then
        (s.setRcvAck row i (acktag i)).updateWin cfg i ((acktag i - s.rcvAckPsn row i) %
          2 ^ 32) dev true
      else s.updateWin cfg i 0 dev true
    else s.updateWin cfg i (acktag i % 2 ^ 32) dev true
  else .ok s

/-- `RecoverWin` of the entries of a `SwitchACKTag`. -/
def recoverWin (cfg : Config) (s : State) (acktag : ℕ → ℕ) (dev : ℕ) : Checked State :=
  (List.range cfg.hostNum).foldlM (recoverDst cfg dev acktag) s

end State

end Floodgate

end Pyrrha

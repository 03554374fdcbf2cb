import Pyrrha.Buffer.Data

/-! The admission control of `SwitchMmu`: ingress and egress counters, PFC thresholds and pause
tests. -/

namespace Pyrrha
open Lib

namespace Buffer

variable {n : ℕ}

namespace Config

/-- `total_hdrm` after `ConfigNPort(GetNDevices() - 1)`. -/
def totalHdrm (cfg : Config n) : ℕ :=
  (List.finRange n).tail.foldl (fun total i => add32 total (cfg.headroom i)) 0

/-- `total_rsrv` after `ConfigNPort(GetNDevices() - 1)`. -/
def totalRsrv (_ : Config n) : ℕ :=
  (List.finRange n).tail.foldl (fun total _ => add32 total reserve) 0

/-- Whether queue `q` takes part in the PFC control of the ingress. -/
def controlled (cfg : Config n) (q : ℕ) : Bool := decide (q < queueNum) && cfg.pfcIngressCtrls q

/-- `pfc_fine`: the ingress counter of a packet in queue `q`. -/
def pfcFine (cfg : Config n) (inDev : Fin n) (q : ℕ) (p : Packet n) : ℕ :=
  if cfg.pfcMode inDev = .dst then p.dst else q

end Config

namespace State

/-! ### Thresholds -/

def getSharedUsed (s : State n) (port : Fin n) (idx : ℕ) : ℕ := s.ingressBytes port idx - reserve

/-- What is left of the shared pool, in `uint32_t`. -/
def sharedLeft (cfg : Config n) (s : State n) : ℕ :=
  sub32 (sub32 (sub32 cfg.bufferSize cfg.totalHdrm) cfg.totalRsrv) s.sharedUsedBytes

def getPfcThreshold (cfg : Config n) (s : State n) (port : Fin n) : ℕ :=
  if cfg.pfcMode port = .off then 2 ^ 31 - 1
  else if 0 < cfg.pfcThStatic port then cfg.pfcThStatic port
  else s.sharedLeft cfg >>> cfg.pfcAShift port

/-! ### Admission -/

def checkIngressAdmission (cfg : Config n) (s : State n) (port : Fin n) (idx psize : ℕ) : Bool :=
  !(decide (cfg.headroom port < add32 psize (s.hdrmBytes port idx)) &&
    decide (s.getPfcThreshold cfg port < add32 psize (s.getSharedUsed port idx)))

def checkEgressAdmission (cfg : Config n) (s : State n) (port : Fin n) (q psize : ℕ) : Bool :=
  decide (queueNum ≤ q) || decide (add32 (s.egressBytes port q) psize ≤ cfg.maxQlen q)

def updateIngressAdmission (cfg : Config n) (s : State n) (port : Fin n) (idx psize : ℕ) :
    State n :=
  let newBytes := add32 (s.ingressBytes port idx) psize
  if newBytes ≤ reserve then { s with ingressBytes := update₂ s.ingressBytes port idx newBytes }
  else if s.getPfcThreshold cfg port < newBytes - reserve then
    { s with hdrmBytes := update₂ s.hdrmBytes port idx (add32 (s.hdrmBytes port idx) psize) }
  else
    { s with
      ingressBytes := update₂ s.ingressBytes port idx newBytes
      sharedUsedBytes := add32 s.sharedUsedBytes (min psize (newBytes - reserve)) }

def updateEgressAdmission (s : State n) (port : Fin n) (q psize : ℕ) : State n :=
  { s with
    egressLen := Function.update s.egressLen port (max (s.egressLen port) (q + 1))
    egressBytes := update₂ s.egressBytes port q (add32 (s.egressBytes port q) psize) }

def removeFromIngressAdmission (s : State n) (port : Fin n) (idx psize : ℕ) : State n :=
  let fromHdrm := min (s.hdrmBytes port idx) psize
  let fromShared := min (psize - fromHdrm) (s.ingressBytes port idx - reserve)
  { s with
    hdrmBytes := update₂ s.hdrmBytes port idx (sub32 (s.hdrmBytes port idx) fromHdrm)
    ingressBytes :=
      update₂ s.ingressBytes port idx (sub32 (s.ingressBytes port idx) (psize - fromHdrm))
    sharedUsedBytes := sub32 s.sharedUsedBytes fromShared }

def removeFromEgressAdmission (s : State n) (port : Fin n) (q psize : ℕ) : Checked (State n) :=
  if q < s.egressLen port ∧ psize ≤ s.egressBytes port q then
    .ok { s with egressBytes := update₂ s.egressBytes port q (sub32 (s.egressBytes port q) psize) }
  else .error .removeFromEgressAdmission

/-! ### Pause and resume -/

def checkShouldPause (cfg : Config n) (s : State n) (port : Fin n) (idx : ℕ) : Bool :=
  !s.paused port idx && (decide (0 < s.hdrmBytes port idx) ||
    decide (s.getPfcThreshold cfg port ≤ s.getSharedUsed port idx))

def checkShouldResume (cfg : Config n) (s : State n) (port : Fin n) (idx : ℕ) : Bool :=
  s.paused port idx && (decide (s.hdrmBytes port idx = 0) &&
    (decide (s.getSharedUsed port idx = 0) ||
    decide (add32 (s.getSharedUsed port idx) resumeOffset ≤ s.getPfcThreshold cfg port)))

def setPause (s : State n) (port : Fin n) (idx : ℕ) : State n :=
  { s with paused := update₂ s.paused port idx true }

def setResume (s : State n) (port : Fin n) (idx : ℕ) : State n :=
  { s with paused := update₂ s.paused port idx false }

/-- `CheckVOQPause` and `CheckVOQResume`: the buffer they look at, if any. -/
def voqMetric (cfg : Config n) (s : State n) (egress : Fin n) (q dst : ℕ) : Option ℕ :=
  match cfg.voqPauseMode with
  | .egressVqlen =>
    if cfg.isLastHop egress = true ∨ queueNum ≤ q then some (s.egressBytes egress q) else none
  | .buffer => some (s.bufferingBytes dst)
  | .egressBuffer => some (s.bufferingEgressBytes egress dst)

def checkVOQPause (cfg : Config n) (s : State n) (ingress egress : Fin n) (q dst : ℕ) : Bool :=
  (s.voqMetric cfg egress q dst).any fun buffer => decide (cfg.voqPauseTh ingress egress < buffer)

def checkVOQResume (cfg : Config n) (s : State n) (ingress egress : Fin n) (q dst : ℕ) : Bool :=
  (s.voqMetric cfg egress q dst).any fun buffer => decide (buffer ≤ cfg.voqResumeTh ingress egress)

/-! ### Statistics -/

/-- `switch_buffer` of `DoStatistics`. -/
def switchBuffer (cfg : Config n) (s : State n) : ℕ :=
  ((if cfg.usePortWin then ((List.finRange n).map s.egressCacheBytes).sum else 0) +
    ((List.finRange n).map s.bytesInQueueTotal).sum) % 2 ^ 32

/-- `egress_buffer` of `DoStatistics`. -/
def egressBuffer (s : State n) : ℕ :=
  ((List.finRange n).map fun i => ((List.range (s.egressLen i)).map (s.egressBytes i)).sum).sum %
    2 ^ 32

/-- `VOQ_buffer` of `DoStatistics`. -/
def voqBuffer (s : State n) : ℕ := ((List.range nodeScale).map s.buffering).sum % 2 ^ 32

/-- `SwitchNode::DoStatistics`: the buffer it returns. -/
def doStatistics (cfg : Config n) (s : State n) : Checked ℕ :=
  if s.voqBuffer = s.voqBytes ∧ s.egressBuffer ≤ add32 (s.switchBuffer cfg) s.voqBytes then
    .ok (s.switchBuffer cfg)
  else .error .doStatistics

end State

end Buffer

end Pyrrha

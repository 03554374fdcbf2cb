import Pyrrha.Buffer.Calls
import Pyrrha.Buffer.PauseFlags

/-!
Which charges of an ingress are followed by a pause test, and which pauses are taken back at once:
`SendToDev` hands the packet to its output device, and an idle device transmits before `SendToDev`
returns.
-/

namespace Pyrrha
open Lib

namespace Buffer

variable {n : ℕ} {cfg : Config n} {s t u : State n}

namespace State

/-- An index is below its threshold, with an empty headroom. -/
def Below (cfg : Config n) (s : State n) (i : Fin n) (x : ℕ) : Prop :=
  s.hdrmBytes i x = 0 ∧ s.getSharedUsed i x < s.getPfcThreshold cfg i

/-- Nothing is left to do about an index of a port: it is below its threshold with an empty
headroom, or it is paused and the device has had the frame. -/
def Answered (cfg : Config n) (s : State n) (i : Fin n) (x : ℕ) : Prop :=
  s.checkShouldPause cfg i x = false ∧
    (s.Below cfg i x ∨ (s.paused i x = true ∧ (i, x, true) ∈ s.pfcFrames))

/-- Whether `SendToDev` charges the ingress with the packet. -/
def admitted (cfg : Config n) (s : State n) (inDev dev : Fin n) (q : ℕ) (p : Packet n) : Bool :=
  ((s.matchFlow cfg dev q p).admits cfg inDev dev q p).toOption.getD false

/-- The counters once `SendToDev` has entered the packet in them. -/
def entered (cfg : Config n) (s : State n) (inDev dev : Fin n) (q : ℕ) (p : Packet n)
    (bfcPause : Bool) : State n :=
  (s.matchFlow cfg dev q p).chargeAll cfg inDev dev q p (s.admitted cfg inDev dev q p) bfcPause

/-- `SendToDev` of an accepted packet that passes the window, up to the `DequeueAndTransmit` of its
device. -/
def handed (cfg : Config n) (s : State n) (inDev dev : Fin n) (q : ℕ) (p : Packet n)
    (bfcPause : Bool) : Checked (State n) :=
  ((s.matchFlow cfg dev q p).charge cfg inDev dev q p (s.admitted cfg inDev dev q p)).passToDev cfg
    inDev dev q p bfcPause

/-- Index `x` of the port is paused when the packet is handed over: it was before, it is not below
its threshold with the packet, or it has the number of a destination that VOQ_DSTPFC pauses for
it. -/
def Flagged (cfg : Config n) (s : State n) (inDev dev : Fin n) (q : ℕ) (p : Packet n)
    (bfcPause : Bool) (x : ℕ) : Prop :=
  s.paused inDev x = true ∨ ¬(s.entered cfg inDev dev q p bfcPause).Below cfg inDev x ∨
    (cfg.fcMode = .voqDstPfc ∧ q ≠ 0 ∧ x = p.dst ∧
      (s.entered cfg inDev dev q p bfcPause).checkVOQPause cfg inDev dev q p.dst = true)

/-- The counters `s` that `it` leaves behind, which came in through `port`, make
`SwitchNotifyDequeue` clear the flag of an index: by `CheckAndSendResume` if it is the index of the
packet, or by `CheckVOQResume` if it has the number of the destination. -/
def Resumes (cfg : Config n) (s : State n) (port : Fin n) (it : Item n) (i : Fin n) (x : ℕ) :
    Prop :=
  (cfg.controlled it.q = true ∧ i = port ∧ x = cfg.pfcFine port it.q it.packet ∧
    s.hdrmBytes i x = 0 ∧ (s.getSharedUsed i x = 0 ∨ add32 (s.getSharedUsed i x) resumeOffset ≤
      s.getPfcThreshold cfg i)) ∨
  (cfg.fcMode = .voqDstPfc ∧ it.q ≠ 0 ∧ x = it.packet.dst ∧
    s.checkVOQResume cfg port it.dev it.q it.packet.dst = true)

/-- `DequeueAndTransmit` of `dev` can send the packet of `x`. -/
def Sends (cfg : Config n) (s : State n) (dev : Fin n) (x : Sending n) : Prop :=
  x.it.dev = dev ∧ s.isFront cfg.pifo .queue x.k x.it = true ∧ s.linkUp x.it.dev = true ∧
    (x.it.q < queueNum ∨ cfg.fcMode ≠ .congestionIsolation)

end State

/-! ### What the tests look at -/

/-- The counters that the pause and resume tests look at are the same. -/
structure SameTests (s t : State n) : Prop extends SameIngress s t where
  egress : t.egressBytes = s.egressBytes
  buffering : t.bufferingBytes = s.bufferingBytes
  bufferingEgress : t.bufferingEgressBytes = s.bufferingEgressBytes

theorem SameTests.trans (first : SameTests s t) (second : SameTests t u) : SameTests s u :=
  ⟨first.toSameIngress.trans second.toSameIngress, second.egress.trans first.egress,
    second.buffering.trans first.buffering, second.bufferingEgress.trans first.bufferingEgress⟩

theorem SameIngress.below (h : SameIngress s t) (i : Fin n) (x : ℕ) : t.Below cfg i x ↔
    s.Below cfg i x := by
  unfold State.Below
  rw [h.hdrm, h.sharedUsed, h.threshold]

theorem SameTests.voqResume (h : SameTests s t) (i e : Fin n) (q dst : ℕ) :
    t.checkVOQResume cfg i e q dst = s.checkVOQResume cfg i e q dst := by
  unfold State.checkVOQResume State.voqMetric
  rw [h.egress, h.buffering, h.bufferingEgress]

theorem SameTests.resumes (h : SameTests s t) (port : Fin n) (it : Item n) (i : Fin n) (x : ℕ) :
    t.Resumes cfg port it i x ↔ s.Resumes cfg port it i x := by
  unfold State.Resumes
  rw [h.hdrm, h.sharedUsed, h.threshold, h.voqResume]

theorem SameTests.discharge (h : SameTests s t) (inDev dev : Fin n) (q : ℕ) (p : Packet n) :
    SameTests (s.discharge cfg inDev dev q p) (t.discharge cfg inDev dev q p) := by
  have released : SameTests (s.releaseIngress cfg inDev q p) (t.releaseIngress cfg inDev q p) := by
    unfold State.releaseIngress State.removeFromIngressAdmission
    rw [h.ingress, h.hdrm, h.shared]
    split
    · exact ⟨⟨rfl, rfl, rfl⟩, h.egress, h.buffering, h.bufferingEgress⟩
    · exact h
  have egress := released.egress
  have buffering := released.buffering
  have bufferingEgress := released.bufferingEgress
  have taken : SameTests ((s.releaseIngress cfg inDev q p).subEgress dev q p.size)
      ((t.releaseIngress cfg inDev q p).subEgress dev q p.size) := by
    refine ⟨⟨released.ingress, released.hdrm, released.shared⟩, ?_, buffering, bufferingEgress⟩
    simp only [State.subEgress, egress]
  unfold State.discharge
  dsimp only
  split
  · refine ⟨⟨taken.ingress, taken.hdrm, taken.shared⟩, taken.egress, ?_, ?_⟩
    · simp only [State.subBuffering, State.setBuffering, State.subBytes, State.subEgress, buffering]
    · simp only [State.subBuffering, State.setBuffering, State.subBytes, State.subEgress,
        bufferingEgress]
  · exact ⟨⟨taken.ingress, taken.hdrm, taken.shared⟩, taken.egress, taken.buffering,
      taken.bufferingEgress⟩

instance (cfg : Config n) (s : State n) (dev : Fin n) (x : State.Sending n) :
    Decidable (s.Sends cfg dev x) :=
  inferInstanceAs (Decidable (_ ∧ _ ∧ _ ∧ _))

end Buffer

end Pyrrha

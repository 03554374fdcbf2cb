import Pyrrha.Buffer.Calls

/-!
The headroom of an ingress index. `CheckIngressAdmission` and `UpdateIngressAdmission` compute
differently what a packet needs, from the same threshold; what the one puts into the headroom, the
other has found room for.
-/

namespace Pyrrha
open Lib

namespace Buffer

variable {n : ℕ} {cfg : Config n} {s t u : State n} {port : Fin n} {idx psize : ℕ}

namespace State

/-- `CheckIngressAdmission` takes the packet for one that needs headroom. -/
def NeedsHeadroom (cfg : Config n) (s : State n) (port : Fin n) (idx psize : ℕ) : Prop :=
  s.getPfcThreshold cfg port < add32 psize (s.getSharedUsed port idx)

/-- `UpdateIngressAdmission` puts the packet into the headroom. -/
def TakesHeadroom (cfg : Config n) (s : State n) (port : Fin n) (idx psize : ℕ) : Prop :=
  reserve < add32 (s.ingressBytes port idx) psize ∧
    s.getPfcThreshold cfg port < add32 (s.ingressBytes port idx) psize - reserve

/-- No index has more in the headroom than its port may. -/
def WithinHeadroom (cfg : Config n) (s : State n) : Prop :=
  ∀ port idx, s.hdrmBytes port idx ≤ cfg.headroom port

end State

/-! ### The two routines -/

theorem takes_needs (small : psize < 2 ^ 31) (takes : s.TakesHeadroom cfg port idx psize) :
    s.NeedsHeadroom cfg port idx psize := by
  obtain ⟨beyond, takes⟩ := takes
  refine takes.trans_le ?_
  have reserved : reserve < 2 ^ 31 := by decide
  unfold State.getSharedUsed add32 at *
  -- within the reserve the packet counts in full, beyond it both sides are the same number modulo
  -- 2^32
  by_cases within : s.ingressBytes port idx ≤ reserve
  · omega
  · omega

theorem checkIngressAdmission_room (check : s.checkIngressAdmission cfg port idx psize = true)
    (needs : s.NeedsHeadroom cfg port idx psize) : add32 psize (s.hdrmBytes port idx) ≤
      cfg.headroom port := by
  unfold State.NeedsHeadroom at needs
  simp only [State.checkIngressAdmission, needs, decide_true, Bool.and_true, Bool.not_eq_true',
    decide_eq_false_iff_not, not_lt] at check
  exact check

variable (cfg s port idx psize) in
theorem updateIngressAdmission_hdrm : (s.updateIngressAdmission cfg port idx psize).hdrmBytes =
    s.hdrmBytes ∨
    (s.TakesHeadroom cfg port idx psize ∧ (s.updateIngressAdmission cfg port idx psize).hdrmBytes =
      update₂ s.hdrmBytes port idx (add32 (s.hdrmBytes port idx) psize)) := by
  unfold State.updateIngressAdmission State.TakesHeadroom
  dsimp only
  split
  · exact .inl rfl
  · rename_i beyond
    split
    · rename_i takes
      exact .inr ⟨⟨not_le.mp beyond, takes⟩, rfl⟩
    · exact .inl rfl

theorem within_update (within : s.WithinHeadroom cfg) (small : psize < 2 ^ 31)
    (check : s.checkIngressAdmission cfg port idx psize = true) :
    (s.updateIngressAdmission cfg port idx psize).WithinHeadroom cfg := by
  intro port' idx'
  rcases updateIngressAdmission_hdrm cfg s port idx psize with
    same | ⟨takes, after⟩
  · rw [same]
    exact within port' idx'
  · rw [after, update₂_apply]
    split
    · rename_i here
      have room := checkIngressAdmission_room check (takes_needs small takes)
      rw [here.1, add32, Nat.add_comm]
      exact room
    · exact within port' idx'

theorem within_remove (within : s.WithinHeadroom cfg) :
    (s.removeFromIngressAdmission port idx psize).WithinHeadroom cfg := by
  intro port' idx'
  simp only [State.removeFromIngressAdmission, update₂_apply]
  have before := within port' idx'
  split
  · rename_i here
    rw [here.1, here.2] at before
    rw [here.1]
    unfold sub32
    omega
  · exact before

/-! ### A step -/

theorem within_same (within : s.WithinHeadroom cfg) (same : t.hdrmBytes = s.hdrmBytes) :
    t.WithinHeadroom cfg := by
  intro port idx
  rw [same]
  exact within port idx

theorem switchSend_hdrm (dev : Fin n) (q : ℕ) (counted : Bool) (p : Packet n) :
    (s.switchSend cfg dev q counted p).hdrmBytes = s.hdrmBytes := by
  rcases switchSend_cases cfg s dev q counted p with refused | sent
  · rw [refused]
  · exact (doEnqueue_sameIngress sent).hdrm

theorem forward_hdrm {inDev dev : Fin n} {q : ℕ} {p : Packet n} {ch : Choice}
    (call : s.forward cfg inDev dev q p ch = .ok t) : t.hdrmBytes = s.hdrmBytes := by
  rcases forward_cases call with ⟨-, rfl⟩ | ⟨-, rfl⟩ | ⟨-, u, quiet, rfl, -⟩
  · rfl
  · rfl
  · rw [switchSend_hdrm, quiet.hdrmBytes]
    exact (chargeMode_sameIngress inDev dev q p ch.bfcPause).hdrm

theorem admits_checked {inDev dev : Fin n} {q : ℕ} {p : Packet n}
    (test : s.admits cfg inDev dev q p = .ok true) (controlled : cfg.controlled q = true) :
    s.checkIngressAdmission cfg inDev (cfg.pfcFine inDev q p) p.size = true := by
  unfold State.admits at test
  split at test
  · rename_i passes
    have first := (Bool.and_eq_true_iff.mp passes).1
    rw [controlled] at first
    exact first
  · cases test

theorem within_charge (within : s.WithinHeadroom cfg) {inDev dev : Fin n} {q : ℕ} {p : Packet n}
    {admitted : Bool} (test : s.admits cfg inDev dev q p = .ok admitted) :
    (s.charge cfg inDev dev q p admitted).WithinHeadroom cfg := by
  cases admitted with
  | false =>
    rw [charge_false]
    exact within_same within rfl
  | true =>
    rw [charge_true]
    refine within_same ?_ rfl
    unfold State.chargeIngress
    split
    · rename_i controlled
      exact within_update within p.size_lt (admits_checked test controlled)
    · exact within

theorem within_sendToDev (within : s.WithinHeadroom cfg) {inDev dev : Fin n} {q : ℕ} {p : Packet n}
    {ch : Choice} (call : s.sendToDev cfg inDev dev q p ch = .ok t) : t.WithinHeadroom cfg := by
  rcases sendToDev_cases call with ⟨quiet, -⟩ | ⟨admitted, enters, forwarded⟩
  · exact within_same within quiet.hdrmBytes
  · have matched : Quiet cfg s (s.matchFlow cfg dev q (p.arrived inDev)) := matchFlow_quiet _ _ _
    have charged := within_charge (within_same within matched.hdrmBytes) enters.admits
    exact within_same charged (forward_hdrm forwarded)

theorem within_dischargeAll (within : s.WithinHeadroom cfg) (inDev dev : Fin n) (q : ℕ)
    (p : Packet n) : (s.dischargeAll cfg inDev dev q p).WithinHeadroom cfg := by
  refine within_same ?_ (dischargeAll_sameIngress inDev dev q p).hdrm
  unfold State.releaseIngress
  split
  · exact within_remove within
  · exact within

theorem within_transmit (within : s.WithinHeadroom cfg) {k : ℕ} {it : Item n}
    {flowId : Option (Fin n)}
    (call : s.dequeueAndTransmit cfg k it flowId = .ok t) : t.WithinHeadroom cfg := by
  rcases dequeueAndTransmit_cases call with rfl | ⟨-, -, -, notified⟩
  · exact within
  · have popped : (s.popQueue k it).WithinHeadroom cfg := within_same within rfl
    rcases switchNotifyDequeue_cases notified with ⟨-, rfl⟩ | ⟨-, inDev, -, -, -, quiet⟩
    · exact popped
    · exact within_same (within_dischargeAll popped inDev it.dev it.q it.packet) quiet.hdrmBytes

/-- The switch has no hierarchical queues, or leaves them alone. -/
def Event.Flat (cfg : Config n) : Event n → Prop
  | .hierRR _ => cfg.fcMode ≠ .congestionIsolation
  | _ => True

theorem within_step (within : s.WithinHeadroom cfg) {ev : Event n} (flat : ev.Flat cfg)
    (call : s.step cfg ev = .ok t) : t.WithinHeadroom cfg := by
  cases ev with
  | arrive p inDev dev q ch => exact within_sendToDev within call
  | transmit k it flowId => exact within_transmit within call
  | hierRR moves =>
    have same : s.step cfg (.hierRR moves) = .ok s := if_neg flat
    rw [same] at call
    cases call
    exact within
  | releaseVoq k it toCache =>
    cases call
    refine within_same within ?_
    unfold State.releaseVoq
    split
    · split
      · rfl
      · exact switchSend_hdrm _ _ _ _
    · rfl
  | releaseCache k it =>
    cases call
    refine within_same within ?_
    unfold State.releaseCache
    split
    · exact switchSend_hdrm _ _ _ _
    · rfl
  | sendFrame dev p =>
    cases call
    exact within_same within (sendFrame_quiet dev p).hdrmBytes
  | registerQ dev =>
    cases call
    exact within
  | takeDown dev limited =>
    cases call
    exact within

/-! ### Runs -/

/-- The runs in which `shared_used_bytes`, and with it the threshold, also changes to anything
between steps. -/
inductive Drifts (cfg : Config n) : State n → Prop where
  | initial : Drifts cfg {}
  | step {s t : State n} {ev : Event n} : Drifts cfg s → ev.Flat cfg → s.step cfg ev = .ok t →
      Drifts cfg t
  | drift {s : State n} (used : ℕ) : Drifts cfg s →
      Drifts cfg { s with sharedUsedBytes := used % 2 ^ 32 }

theorem within_drifts (reach : Drifts cfg s) : s.WithinHeadroom cfg := by
  induction reach with
  | initial => exact fun _ _ => Nat.zero_le _
  | step _ flat call ih => exact within_step ih flat call
  | drift used _ ih => exact ih

/-- The headroom is never exceeded, since `UpdateIngressAdmission` puts into it only what
`CheckIngressAdmission` has found to need it. -/
theorem headroom_kept (reach : Drifts cfg s) :
    (∀ port idx, s.hdrmBytes port idx ≤ cfg.headroom port) ∧
    ∀ port idx psize, psize < 2 ^ 31 → s.TakesHeadroom cfg port idx psize →
    s.NeedsHeadroom cfg port idx psize ∧ (s.checkIngressAdmission cfg port idx psize = true →
        add32 psize (s.hdrmBytes port idx) ≤ cfg.headroom port) :=
  ⟨within_drifts reach, fun _ _ _ small takes =>
    ⟨takes_needs small takes, fun check => checkIngressAdmission_room check
      (takes_needs small takes)⟩⟩

/-- One byte to share, so that a packet goes into the headroom once the reserve is used up. -/
def sharelessConfig : Config 3 :=
  { controlledConfig 100000 with
    bufferSize := 28193
    bufferSize_lt := by omega }

theorem headroom_kept_full : ∃ s : State 3, Drifts sharelessConfig s ∧ s.hdrmBytes 1 1 = 5000 ∧
    ∀ port idx, s.hdrmBytes port idx ≤ sharelessConfig.headroom port := by
  let arrival : Event 3 := .arrive (smallPacket .udp 4999) 1 2 1 ⟨.pass, false⟩
  have ends : ((State.step sharelessConfig {} arrival).toOption.any fun t =>
      decide (t.hdrmBytes 1 1 = 5000)) = true := by decide +kernel
  obtain ⟨s, call, full⟩ := State.any_ok ends
  have flat : arrival.Flat sharelessConfig := trivial
  have reach : Drifts sharelessConfig s := .step .initial flat call
  exact ⟨s, reach, of_decide_eq_true full, (headroom_kept reach).1⟩

end Buffer

end Pyrrha

import Mathlib.Logic.Relation
import Pyrrha.Buffer.Ingress

/-!
What an event does to the ingress counters: it leaves them alone, charges a packet, or releases one.
Unlike the books of the ingress, this also holds where packets that are charged get lost, in a full
queue or with a link.
-/

namespace Pyrrha
open Lib

namespace Buffer

variable {n : ℕ} {cfg : Config n} {s t u : State n}

/-- The bytes of the buffered packets that an index of a port is to release. -/
def State.chargedBytes (cfg : Config n) (s : State n) (port : Fin n) (idx : ℕ) : ℕ :=
  tally Item.size (Item.charged cfg port idx) s.held

/-- One change of the ingress counters, where charging a packet needs `P`. -/
inductive IngressStep (cfg : Config n) (P : State n → Fin n → ℕ → ℕ → Prop) (s t : State n) :
    Prop where
  | keep (same : SameIngress s t) (held : ∀ port idx, t.chargedBytes cfg port idx ≤
      s.chargedBytes cfg port idx)
  | enter {port : Fin n} {it : Item n} (known : it.packet.inDev = some port)
      (controlled : cfg.controlled it.q = true)
      (allowed : P s port (cfg.pfcFine port it.q it.packet) it.size)
      (same :
        SameIngress (s.updateIngressAdmission cfg port (cfg.pfcFine port it.q it.packet) it.size) t)
      (held : ∀ port idx, t.chargedBytes cfg port idx ≤
        s.chargedBytes cfg port idx + if it.charged cfg port idx then it.size else 0)
  | leave {port : Fin n} {it : Item n} (known : it.packet.inDev = some port)
      (controlled : cfg.controlled it.q = true) (same :
        SameIngress (s.removeFromIngressAdmission port (cfg.pfcFine port it.q it.packet) it.size) t)
      (held : ∀ port idx, t.chargedBytes cfg port idx +
        (if it.charged cfg port idx then it.size else 0) ≤ s.chargedBytes cfg port idx)

/-- Changes one after the other. -/
def IngressFlow (cfg : Config n) (P : State n → Fin n → ℕ → ℕ → Prop) : State n → State n → Prop :=
  Relation.ReflTransGen (IngressStep cfg P)

variable {P : State n → Fin n → ℕ → ℕ → Prop}

theorem SameIngress.symm (same : SameIngress s t) : SameIngress t s :=
  ⟨same.ingress.symm, same.hdrm.symm, same.shared.symm⟩

theorem sharedLeft_congr (same : SameIngress s t) : t.sharedLeft cfg = s.sharedLeft cfg := by
  rw [State.sharedLeft, State.sharedLeft, same.shared]

theorem getPfcThreshold_congr (same : SameIngress s t) (port : Fin n) :
    t.getPfcThreshold cfg port = s.getPfcThreshold cfg port := by
  rw [State.getPfcThreshold, State.getPfcThreshold, sharedLeft_congr same]

theorem updateIngressAdmission_congr (same : SameIngress s t) (port : Fin n) (idx psize : ℕ) :
    SameIngress (s.updateIngressAdmission cfg port idx psize)
      (t.updateIngressAdmission cfg port idx psize) := by
  have threshold : t.getPfcThreshold cfg port = s.getPfcThreshold cfg port :=
    getPfcThreshold_congr same port
  obtain ⟨ingress, hdrm, shared⟩ := same
  unfold State.updateIngressAdmission
  dsimp only
  rw [ingress, threshold]
  split
  · exact ⟨rfl, hdrm, shared⟩
  · split
    · exact ⟨rfl, by dsimp only; rw [hdrm], shared⟩
    · exact ⟨rfl, hdrm, by dsimp only; rw [shared]⟩

theorem removeFromIngressAdmission_congr (same : SameIngress s t) (port : Fin n) (idx psize : ℕ) :
    SameIngress (s.removeFromIngressAdmission port idx psize)
      (t.removeFromIngressAdmission port idx psize) := by
  simp only [State.removeFromIngressAdmission, same.ingress, same.hdrm, same.shared]
  exact ⟨rfl, rfl, rfl⟩

/-! ### What is buffered -/

theorem chargedBytes_held (held : t.held = s.held) (port : Fin n) (idx : ℕ) :
    t.chargedBytes cfg port idx = s.chargedBytes cfg port idx := by
  rw [State.chargedBytes, held, State.chargedBytes]

theorem chargedBytes_quiet (quiet : Quiet cfg s t) (port : Fin n) (idx : ℕ) :
    t.chargedBytes cfg port idx = s.chargedBytes cfg port idx := by
  obtain ⟨frames, held, areFrames⟩ := quiet.held
  rw [State.chargedBytes, held, tally_append, tally_charged_frames areFrames, Nat.add_zero,
    State.chargedBytes]

theorem chargedBytes_erased {k : ℕ} {it : Item n} (at_k : s.held[k]? = some it)
    (held : t.held = s.held.eraseIdx k) (port : Fin n) (idx : ℕ) : t.chargedBytes cfg port idx +
    (if it.charged cfg port idx then it.size else 0) =
      s.chargedBytes cfg port idx := by
  rw [State.chargedBytes, held, State.chargedBytes]
  exact tally_eraseIdx at_k

theorem chargedBytes_concat {it : Item n} (held : t.held = s.held ++ [it])
    (port : Fin n) (idx : ℕ) : t.chargedBytes cfg port idx = s.chargedBytes cfg port idx +
      if it.charged cfg port idx then it.size else 0 := by
  rw [State.chargedBytes, held, State.chargedBytes]
  exact tally_concat _ _

theorem switchSend_flow (dev : Fin n) (q : ℕ) (counted : Bool) (p : Packet n) :
    SameIngress s (s.switchSend cfg dev q counted p) ∧ ∀ port idx,
      (s.switchSend cfg dev q counted p).chargedBytes cfg port idx ≤ s.chargedBytes cfg port idx +
        if Item.charged cfg port idx ⟨dev, q, .queue, counted, p⟩ then p.size else 0 := by
  rcases switchSend_cases cfg s dev q counted p with refused | sent
  · rw [refused]
    exact ⟨⟨rfl, rfl, rfl⟩, fun port idx => (chargedBytes_held rfl port idx).le.trans
      (Nat.le_add_right _ _)⟩
  · refine ⟨doEnqueue_sameIngress sent, fun port idx => ?_⟩
    obtain ⟨-, after⟩ := doEnqueue_cases sent
    exact (chargedBytes_concat (by rw [after]) port idx).le

/-- A packet that goes on to the window check is buffered at most once, and the counters stay. -/
theorem forward_flow {inDev dev : Fin n} {q : ℕ} {p : Packet n} {ch : Choice}
    (call : s.forward cfg inDev dev q p ch = .ok t) : SameIngress s t ∧
    ∀ port idx, t.chargedBytes cfg port idx ≤
      s.chargedBytes cfg port idx + if Item.charged cfg port idx
        ⟨dev, q, .queue, true, p⟩ then p.size else 0 := by
  rcases forward_cases call with ⟨-, rfl⟩ | ⟨-, rfl⟩ | ⟨-, u, quiet, rfl, -⟩
  · exact ⟨⟨rfl, rfl, rfl⟩, fun port idx =>
      (@chargedBytes_concat n cfg s _ ⟨dev, q, .voq, false, p⟩ rfl port idx).le⟩
  · exact ⟨⟨rfl, rfl, rfl⟩, fun port idx =>
      (@chargedBytes_concat n cfg s _ ⟨dev, q, .cache, false, p⟩ rfl port idx).le⟩
  · have counted : SameIngress s (s.addBytes inDev dev q p.size) := ⟨rfl, rfl, rfl⟩
    have booked :
        Booked s ((s.addBytes inDev dev q p.size).chargeMode cfg inDev dev q p ch.bfcPause) :=
      (addBytes_booked inDev dev q p.size).trans (chargeMode_booked inDev dev q p ch.bfcPause)
    obtain ⟨same, sent⟩ := @switchSend_flow n cfg u dev q true (p.marked cfg q ch.bfcPause)
    refine ⟨((counted.trans (chargeMode_sameIngress inDev dev q p ch.bfcPause)).trans
      quiet.sameIngress).trans same, fun port idx => (sent port idx).trans ?_⟩
    rw [chargedBytes_quiet quiet, chargedBytes_held booked.held,
      charged_marked dev q .queue .queue true true, marked_size]

/-! ### The steps -/

theorem IngressFlow.quiet (quiet : Quiet cfg s t) : IngressFlow cfg P s t :=
  .single (.keep quiet.sameIngress fun port idx => (chargedBytes_quiet quiet port idx).le)

theorem flow_admitted {inDev dev : Fin n} {q : ℕ} {p : Packet n} {ch : Choice}
    (same : SameIngress s u)
    (bytes : ∀ port idx, u.chargedBytes cfg port idx = s.chargedBytes cfg port idx)
    (known : p.inDev = some inDev)
    (allowed : cfg.controlled q = true → P s inDev (cfg.pfcFine inDev q p) p.size)
    (call : (u.charge cfg inDev dev q p true).forward cfg inDev dev q p ch = .ok t) :
    IngressFlow cfg P s t := by
  obtain ⟨after, held⟩ := forward_flow call
  have charged : ∀ port idx, (u.charge cfg inDev dev q p true).chargedBytes cfg port idx =
      s.chargedBytes cfg port idx :=
    fun port idx => (chargedBytes_held (charge_booked inDev dev q p true).held port idx).trans
      (bytes port idx)
  simp only [charged] at held
  rw [charge_true] at after
  have egress : ∀ v : State n, SameIngress v (v.updateEgressAdmission dev q p.size) :=
    fun v => ⟨rfl, rfl, rfl⟩
  by_cases controlled : cfg.controlled q = true
  · rw [State.chargeIngress, if_pos controlled] at after
    have entered :=
      @updateIngressAdmission_congr n cfg s u same inDev (cfg.pfcFine inDev q p) p.size
    exact .single (@IngressStep.enter n cfg P s t inDev ⟨dev, q, .queue, true, p⟩ known controlled
      (allowed controlled) ((entered.trans (egress _)).trans after) held)
  · rw [State.chargeIngress, if_neg controlled] at after
    refine .single (.keep ((same.trans (egress _)).trans after) fun port idx => ?_)
    have below := held port idx
    rw [charged_uncontrolled _ (Bool.eq_false_of_not_eq_true controlled),
      if_neg Bool.false_ne_true] at below
    exact below

theorem flow_unadmitted {inDev dev : Fin n} {q : ℕ} {p : Packet n} {ch : Choice}
    (same : SameIngress s u)
    (bytes : ∀ port idx, u.chargedBytes cfg port idx = s.chargedBytes cfg port idx)
    (free : cfg.controlled q = false)
    (call : (u.charge cfg inDev dev q p false).forward cfg inDev dev q p ch = .ok t) :
    IngressFlow cfg P s t := by
  obtain ⟨after, held⟩ := forward_flow call
  rw [charge_false] at after
  have egress : SameIngress u (u.updateEgressAdmission dev q p.size) := ⟨rfl, rfl, rfl⟩
  refine .single (.keep ((same.trans egress).trans after) fun port idx => ?_)
  have below := held port idx
  rw [charged_uncontrolled _ free, if_neg Bool.false_ne_true, Nat.add_zero,
    chargedBytes_held (charge_booked inDev dev q p false).held, bytes] at below
  exact below

/-- What an event must not do for the counters to follow the packets, and what it is to charge: an
acknowledgement in a controlled queue passes the admission even with `PFCoff`; a SYN of the switch
itself leaves through a queue without control; and the hierarchical round charges the index it is
going to release. -/
def Event.Charges (cfg : Config n) (P : State n → Fin n → ℕ → ℕ → Prop) (s : State n) :
    Event n → Prop
  | .arrive p inDev dev q _ => cfg.controlled q = true →
    ((s.matchFlow cfg dev q (p.arrived inDev)).admits cfg inDev dev q (p.arrived inDev) = .ok true →
      P s inDev (cfg.pfcFine inDev q p) p.size) ∧
    ((s.matchFlow cfg dev q (p.arrived inDev)).admits cfg inDev dev q (p.arrived inDev) =
      .ok false → cfg.fcMode = .pfcOff → p.l3Prot ≠ .ack ∧ p.l3Prot ≠ .sack)
  | .transmit k it _ => AtFront s k it → it.packet.inDev = none → it.packet.l3Prot = .switchPsn →
    cfg.controlled it.q = false
  | .hierRR moves => ∀ before m after, moves = before ++ m :: after → cfg.controlled m.2.2 = true →
    ∀ u, s.doHierQRR cfg before = .ok u → ∀ port, m.2.1.packet.inDev = some port →
      cfg.pfcMode port ≠ .dst ∧ P u port m.2.2 m.2.1.size
  | _ => True

theorem flow_sendToDev {inDev dev : Fin n} {q : ℕ} {p : Packet n} {ch : Choice}
    (charges : (Event.arrive p inDev dev q ch).Charges cfg P s)
    (call : s.sendToDev cfg inDev dev q p ch = .ok t) : IngressFlow cfg P s t := by
  rcases sendToDev_cases call with ⟨quiet, -⟩ | ⟨admitted, enters, forwarded⟩
  · exact .quiet quiet
  · have quiet : Quiet cfg s (s.matchFlow cfg dev q (p.arrived inDev)) := matchFlow_quiet _ _ _
    cases admitted with
    | true =>
      exact flow_admitted (p := p.arrived inDev) quiet.sameIngress (chargedBytes_quiet quiet) rfl
        (fun controlled => (charges controlled).1 enters.admits) forwarded
    | false =>
      refine flow_unadmitted quiet.sameIngress (chargedBytes_quiet quiet) ?_ forwarded
      by_contra controlled
      obtain ⟨notAck, notSack⟩ :=
        (charges (Bool.eq_true_of_not_eq_false controlled)).2 enters.admits (enters.pfcOff rfl)
      exact (enters.ack rfl).elim notAck notSack

theorem flow_transmit (sound : Sound cfg s) {k : ℕ} {it : Item n} {flowId : Option (Fin n)}
    (charges : (Event.transmit k it flowId).Charges cfg P s)
    (call : s.dequeueAndTransmit cfg k it flowId = .ok t) : IngressFlow cfg P s t := by
  have popped : SameIngress s (s.popQueue k it) := popQueue_sameIngress k it
  rcases transmit_cases sound call with rfl | ⟨front, -, rfl⟩ | ⟨inDev, front, kind, -, -, -, quiet⟩
  · exact .refl
  · refine .single (.keep popped fun port idx => ?_)
    have removed := @chargedBytes_erased n cfg s (s.popQueue k it) k it front.found rfl port idx
    omega
  · have removed : ∀ port idx, t.chargedBytes cfg port idx +
      (if it.charged cfg port idx then it.size else 0) = s.chargedBytes cfg port idx := by
      intro port idx
      rw [chargedBytes_quiet quiet]
      exact chargedBytes_erased front.found
        (dischargeAll_booked inDev it.dev it.q it.packet).held port idx
    have same := (dischargeAll_sameIngress inDev it.dev it.q it.packet).trans quiet.sameIngress
    cases controlled : cfg.controlled it.q with
    | false =>
      rw [State.releaseIngress, controlled, if_neg Bool.false_ne_true] at same
      refine .single (.keep (popped.trans same) fun port idx => ?_)
      have left := removed port idx
      omega
    | true =>
      rcases kind with ⟨frame, syn⟩ | ⟨-, known⟩
      · rw [charges front frame.inDev syn] at controlled
        cases controlled
      · rw [State.releaseIngress, if_pos controlled] at same
        have released :=
          removeFromIngressAdmission_congr popped inDev (cfg.pfcFine inDev it.q it.packet) it.size
        exact .single (.leave known controlled (released.trans same) fun port idx =>
          (removed port idx).le)

/-- The hierarchical round charges a packet it has taken from a queue without control. -/
theorem flow_hierMove {k : ℕ} {it : Item n} {nextQ : ℕ}
    (charges : cfg.controlled nextQ = true → ∀ port,
      it.packet.inDev = some port → cfg.pfcMode port ≠ .dst ∧ P s port nextQ it.size)
    (call : s.hierMove cfg k it nextQ = .ok t) : IngressFlow cfg P s t := by
  rcases hierMove_cases call with rfl | ⟨inDev, u, front, known, outer, -, -, -, sent, after⟩
  · exact .refl
  · have free : cfg.controlled it.q = false := by
      simp only [Config.controlled, Bool.and_eq_false_iff, decide_eq_false_iff_not, not_lt]
      exact .inl outer
    have popped : SameIngress s
        (((s.popQueue k it).subEgress it.dev it.q it.size).subBytes inDev it.dev it.q it.size) :=
      (popQueue_sameIngress k it).trans ⟨rfl, rfl, rfl⟩
    have added : SameIngress u
        ((u.addBytes inDev it.dev nextQ it.size).updateEgressAdmission it.dev nextQ it.size) :=
      ⟨rfl, rfl, rfl⟩
    have moved := (popped.trans (doEnqueue_sameIngress sent)).trans added
    obtain ⟨-, enqueued⟩ := doEnqueue_cases sent
    have held : t.held = s.held.eraseIdx k ++ [⟨it.dev, nextQ, .queue, true, it.packet⟩] := by
      have before : u.held = s.held.eraseIdx k ++ [⟨it.dev, nextQ, .queue, true, it.packet⟩] := by rw [enqueued]; rfl
      rw [after]
      split
      · rw [(updateIngressAdmission_booked _ _ _).held]
        exact before
      · exact before
    have bytes : ∀ port idx, t.chargedBytes cfg port idx = s.chargedBytes cfg port idx +
        if Item.charged cfg port idx ⟨it.dev, nextQ, .queue, true, it.packet⟩ then it.size
          else 0 := by
      intro port idx
      have removed := tally_eraseIdx (w := Item.size) (p := Item.charged cfg port idx) front.found
      rw [charged_uncontrolled it free, if_neg Bool.false_ne_true, Nat.add_zero] at removed
      rw [State.chargedBytes, held, tally_concat, removed]
      rfl
    by_cases controlled : cfg.controlled nextQ = true
    · rw [if_pos controlled] at after
      obtain ⟨noDst, allowed⟩ := charges controlled inDev known
      have fine : cfg.pfcFine inDev nextQ it.packet = nextQ := if_neg noDst
      have entered := @updateIngressAdmission_congr n cfg _ _ moved inDev nextQ it.size
      rw [← after] at entered
      refine .single (@IngressStep.enter n cfg P s t inDev
        ⟨it.dev, nextQ, .queue, true, it.packet⟩ known controlled
        ?_ ?_ fun port idx => (bytes port idx).le)
      · rw [fine]
        exact allowed
      · rw [fine]
        exact entered
    · rw [if_neg controlled] at after
      rw [← after] at moved
      refine .single (.keep moved fun port idx => ?_)
      rw [bytes, charged_uncontrolled _ (Bool.eq_false_of_not_eq_true controlled),
        if_neg Bool.false_ne_true]
      exact le_refl _

theorem flow_doHierQRR {moves : List (State.Move n)}
    (charges : (Event.hierRR moves).Charges cfg P s)
    (call : s.doHierQRR cfg moves = .ok t) : IngressFlow cfg P s t := by
  unfold State.doHierQRR at call
  split at call
  · rename_i mode
    refine foldlM_related (R := IngressFlow cfg P) (fun _ => .refl)
      (fun _ _ _ one two => one.trans two) ?_ call
    intro before m after split u v round moved
    refine flow_hierMove (fun controlled port known =>
      charges before m after split controlled u ?_ port known) moved
    rw [State.doHierQRR, if_pos mode]
    exact round
  · cases call
    exact .refl

theorem flow_resent {k : ℕ} {it : Item n} (at_k : s.held[k]? = some it) (same : SameIngress s u)
    (held : u.held = s.held.eraseIdx k) :
    IngressFlow cfg P s (u.switchSend cfg it.dev it.q false it.packet) := by
  obtain ⟨sent, bytes⟩ := @switchSend_flow n cfg u it.dev it.q false it.packet
  refine .single (.keep (same.trans sent) fun port idx => (bytes port idx).trans ?_)
  have removed := @chargedBytes_erased n cfg s u k it at_k held port idx
  exact removed.le

theorem flow_releaseVoq (k : ℕ) (it : Item n) (toCache : Bool) :
    IngressFlow cfg P s (s.releaseVoq cfg k it toCache) := by
  rcases releaseVoq_cases cfg s k it toCache with same | ⟨at_k, -, ⟨-, same⟩ | same⟩ <;> rw [same]
  · exact .refl
  · refine .single (.keep ⟨rfl, rfl, rfl⟩ fun port idx => ?_)
    have removed := @chargedBytes_erased n cfg s (s.popVoq k it) k it at_k rfl port idx
    rw [@chargedBytes_concat n cfg (s.popVoq k it) _ ⟨it.dev, it.q, .cache, false, it.packet⟩ rfl]
    exact removed.le
  · exact flow_resent at_k ⟨rfl, rfl, rfl⟩ rfl

theorem flow_releaseCache (k : ℕ) (it : Item n) :
    IngressFlow cfg P s (s.releaseCache cfg k it) := by
  rcases releaseCache_cases cfg s k it with same | ⟨at_k, -, same⟩ <;> rw [same]
  · exact .refl
  · exact flow_resent at_k ⟨rfl, rfl, rfl⟩ rfl

theorem flow_takeDown (dev : Fin n) (limited : Item n → Bool) :
    IngressFlow cfg P s (s.takeDown cfg dev limited) := by
  refine .single (.keep ⟨rfl, rfl, rfl⟩ fun port idx => ?_)
  simp only [State.chargedBytes, State.takeDown]
  rw [tally_filter]
  apply tally_mono
  intro it _ both
  exact (Bool.and_eq_true_iff.mp both).1

theorem flow_step (sound : Sound cfg s) {ev : Event n} (charges : ev.Charges cfg P s)
    (call : s.step cfg ev = .ok t) : IngressFlow cfg P s t := by
  cases ev with
  | arrive p inDev dev q ch => exact flow_sendToDev charges call
  | transmit k it flowId => exact flow_transmit sound charges call
  | hierRR moves => exact flow_doHierQRR charges call
  | releaseVoq k it toCache =>
    cases call
    exact flow_releaseVoq k it toCache
  | releaseCache k it =>
    cases call
    exact flow_releaseCache k it
  | sendFrame dev p =>
    cases call
    exact .quiet (sendFrame_quiet dev p)
  | registerQ dev =>
    cases call
    exact .single (.keep ⟨rfl, rfl, rfl⟩ fun _ _ => le_refl _)
  | takeDown dev limited =>
    cases call
    exact flow_takeDown dev limited

theorem flow_preserves {I : State n → Prop} (step : ∀ s t, I s → IngressStep cfg P s t → I t)
    (flow : IngressFlow cfg P s t) (before : I s) : I t := by
  induction flow with
  | refl => exact before
  | tail _ last middle => exact step _ _ middle last

/-- What every change of the ingress counters preserves holds throughout such a run. -/
theorem flow_reachable {I : State n → Prop} (start : I {})
    (step : ∀ s t, I s → IngressStep cfg P s t → I t)
    (reach : State.Reachable cfg (fun s ev => ev.Charges cfg P s) s) : Sound cfg s ∧ I s := by
  induction reach with
  | initial => exact ⟨sound_initial, start⟩
  | step _ charges call ih =>
    exact ⟨sound_step ih.1 call, flow_preserves step (flow_step ih.1 charges call) ih.2⟩

end Buffer

end Pyrrha

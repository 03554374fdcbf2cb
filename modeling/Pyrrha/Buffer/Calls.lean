import Mathlib.Data.List.Perm.Basic
import Pyrrha.Buffer.Ingress

/-!
The calls that charge and release the ingress counters, beside the runs that make them: what is
released has been charged before, and what has been charged and not released is what is buffered.
-/

namespace Pyrrha
open Lib

namespace Buffer

variable {n : ℕ} {cfg : Config n} {s t : State n}

/-- A call of `UpdateIngressAdmission` or `RemoveFromIngressAdmission`: port, index and size. -/
abbrev Call (n : ℕ) := Fin n × ℕ × ℕ

/-- The call a buffered packet has been charged by. -/
def Item.call (cfg : Config n) (it : Item n) : Option (Call n) :=
  if cfg.controlled it.q then it.packet.inDev.map fun port =>
    (port, cfg.pfcFine port it.q it.packet, it.size) else none

namespace State

/-- The calls of `UpdateIngressAdmission` in `SendToDev`. -/
def arrivalCalls (cfg : Config n) (s : State n) (inDev dev : Fin n) (q : ℕ) (p : Packet n) :
    List (Call n) :=
  if consumes cfg p = true ∨ s.nQueue dev ≤ q then []
  else match (s.matchFlow cfg dev q (p.arrived inDev)).admits cfg inDev dev q (p.arrived inDev) with
    | .ok true => if cfg.controlled q then [(inDev, cfg.pfcFine inDev q p, p.size)] else []
    | _ => []

/-- Those in one move of `DoHierQRR`. -/
def moveCalls (cfg : Config n) (s : State n) (m : Move n) : List (Call n) :=
  match s.isFront false .queue m.1 m.2.1 && decide (queueNum ≤ m.2.1.q) &&
    decide (m.2.2 < s.nQueue m.2.1.dev), m.2.1.packet.inDev with
  | true, some inDev => if cfg.controlled m.2.2 then [(inDev, m.2.2, m.2.1.size)] else []
  | _, _ => []

def roundCalls (cfg : Config n) : State n → List (Move n) → List (Call n)
  | _, [] => []
  | s, m :: rest =>
    match s.hierMove cfg m.1 m.2.1 m.2.2 with
    | .ok t => s.moveCalls cfg m ++ roundCalls cfg t rest
    | .error _ => []

/-- The calls of `UpdateIngressAdmission` in a step. -/
def updates (cfg : Config n) (s : State n) : Event n → List (Call n)
  | .arrive p inDev dev q _ => s.arrivalCalls cfg inDev dev q p
  | .hierRR moves => if cfg.fcMode = .congestionIsolation then s.roundCalls cfg moves else []
  | _ => []

/-- The calls of `RemoveFromIngressAdmission` in `SwitchNotifyDequeue`. -/
def notifyCalls (cfg : Config n) (q : ℕ) (p : Packet n) (flowId : Option (Fin n)) : List (Call n) :=
  match p.l3Prot with
  | .switchAck | .pfc | .ci => []
  | _ =>
    match p.inDev.or flowId with
    | none => []
    | some inDev => if cfg.controlled q then [(inDev, cfg.pfcFine inDev q p, p.size)] else []

def transmitCalls (cfg : Config n) (s : State n) (k : ℕ) (it : Item n) (flowId : Option (Fin n)) :
    List (Call n) :=
  if s.isFront cfg.pifo .queue k it && s.linkUp it.dev &&
      (decide (it.q < queueNum) || decide (cfg.fcMode ≠ .congestionIsolation)) then
    notifyCalls cfg it.q it.packet flowId
  else []

/-- The calls of `RemoveFromIngressAdmission` in a step. -/
def removes (cfg : Config n) (s : State n) : Event n → List (Call n)
  | .transmit k it flowId => s.transmitCalls cfg k it flowId
  | _ => []

end State

/-- None of the three subtractions of `RemoveFromIngressAdmission` wraps. -/
structure RemoveFits (s : State n) (c : Call n) : Prop where
  hdrm : min (s.hdrmBytes c.1 c.2.1) c.2.2 ≤ s.hdrmBytes c.1 c.2.1
  ingress : c.2.2 - min (s.hdrmBytes c.1 c.2.1) c.2.2 ≤ s.ingressBytes c.1 c.2.1
  shared : min (c.2.2 - min (s.hdrmBytes c.1 c.2.1) c.2.2) (s.ingressBytes c.1 c.2.1 - reserve) ≤
    s.sharedUsedBytes

theorem call_eq_some {it : Item n} {inDev : Fin n} (controlled : cfg.controlled it.q = true)
    (known : it.packet.inDev = some inDev) :
    it.call cfg = some (inDev, cfg.pfcFine inDev it.q it.packet, it.size) := by
  rw [Item.call, if_pos controlled, known]
  rfl

theorem call_free {it : Item n} (free : cfg.controlled it.q = false) : it.call cfg = none := by
  rw [Item.call, free]
  rfl

theorem call_own {it : Item n} (own : it.packet.inDev = none) : it.call cfg = none := by
  rw [Item.call, own]
  split <;> rfl

theorem removeFits (h : IngressBooks cfg s s.held) {it : Item n} (member : it ∈ s.held)
    {inDev : Fin n}
    (controlled : cfg.controlled it.q = true) (known : it.packet.inDev = some inDev) :
    RemoveFits s (inDev, cfg.pfcFine inDev it.q it.packet, it.size) := by
  have inside := pfcFine_lt controlled inDev it.packet
  have entered :=
    (charged_iff known controlled inDev (cfg.pfcFine inDev it.q it.packet)).mpr ⟨rfl, rfl⟩
  have enough := le_tally (w := Item.size) member entered
  rw [← h.charged] at enough
  have part := shared_ge h inDev inside
  refine ⟨min_le_left _ _, ?_, (min_le_right _ _).trans part⟩
  dsimp only
  omega

/-! ### A step -/

/-- The calls of a step are those of the packets that come and go. -/
def CallsMatch (cfg : Config n) (s t : State n) (ups downs : List (Call n)) : Prop :=
  (s.held.filterMap (Item.call cfg) ++ ups).Perm (downs ++ t.held.filterMap (Item.call cfg))

theorem calls_frames {frames : List (Item n)} (areFrames : ∀ it ∈ frames, it.IsFrame cfg) :
    frames.filterMap (Item.call cfg) = [] :=
  List.filterMap_eq_nil_iff.mpr fun it member => call_own (areFrames it member).inDev

theorem calls_quiet (quiet : Quiet cfg s t) :
    t.held.filterMap (Item.call cfg) = s.held.filterMap (Item.call cfg) := by
  obtain ⟨frames, held, areFrames⟩ := quiet.held
  rw [held, List.filterMap_append, calls_frames areFrames, List.append_nil]

/-- A packet whose queue and arrival stay what they are keeps its call. -/
theorem call_congr {it it' : Item n} (queue : it'.q = it.q)
    (inDev : it'.packet.inDev = it.packet.inDev)
    (dst : it'.packet.dst = it.packet.dst) (size : it'.packet.size = it.packet.size) :
    it'.call cfg = it.call cfg := by
  simp only [Item.call, Item.size, Config.pfcFine, queue, inDev, dst, size]

theorem calls_erased (cfg : Config n) {k : ℕ} {it : Item n} (at_k : s.held[k]? = some it) :
    (s.held.filterMap (Item.call cfg)).Perm ((it.call cfg).toList ++
      (s.held.eraseIdx k).filterMap (Item.call cfg)) := by
  obtain ⟨inside, rfl⟩ := List.getElem?_eq_some_iff.mp at_k
  refine ((List.getElem_cons_eraseIdx_perm inside).symm.filterMap (Item.call cfg)).trans ?_
  rw [List.filterMap_cons]
  cases s.held[k].call cfg <;> exact List.Perm.refl _

theorem calls_forward {l : List (Item n)} {inDev dev : Fin n} {q : ℕ} {p : Packet n} {ch : Choice}
    (known : p.inDev = some inDev) (held : s.held = l)
    (call : s.forward cfg inDev dev q p ch = .ok t)
    (room : t.refused = false) : t.held.filterMap (Item.call cfg) =
      l.filterMap (Item.call cfg) ++
        if cfg.controlled q then [(inDev, cfg.pfcFine inDev q p, p.size)] else [] := by
  have one : ∀ place counted, [(⟨dev, q, place, counted, p⟩ : Item n)].filterMap (Item.call cfg) =
      if cfg.controlled q then [(inDev, cfg.pfcFine inDev q p, p.size)] else [] := by
    intro place counted
    simp only [List.filterMap_cons, List.filterMap_nil, Item.call, known]
    split <;> simp_all [Item.size]
  rcases forward_cases call with ⟨-, rfl⟩ | ⟨-, rfl⟩ | ⟨-, u, quiet, rfl, -⟩
  · simp only [State.holdVoq, held, List.filterMap_append, one]
  · simp only [State.holdCache, held, List.filterMap_append, one]
  · have sent := switchSend_sent (by rw [marked_inDev, known]; rfl) room
    have booked :
        Booked s ((s.addBytes inDev dev q p.size).chargeMode cfg inDev dev q p ch.bfcPause) :=
      (addBytes_booked _ _ _ _).trans (chargeMode_booked _ _ _ _ _)
    obtain ⟨-, after⟩ := doEnqueue_cases sent
    have same : Item.call cfg ⟨dev, q, .queue, true, p.marked cfg q ch.bfcPause⟩ =
        Item.call cfg ⟨dev, q, .queue, true, p⟩ :=
          call_congr rfl (marked_inDev ..) (marked_dst ..) (marked_size ..)
    rw [after]
    simp only [List.filterMap_append, calls_quiet quiet, booked.held, held, ← one .queue true,
      List.filterMap_cons, List.filterMap_nil, same]

theorem calls_sendToDev (mode : cfg.fcMode ≠ .pfcOff) {inDev dev : Fin n} {q : ℕ} {p : Packet n}
    {ch : Choice} (call : s.sendToDev cfg inDev dev q p ch = .ok t) (room : t.refused = false) :
    CallsMatch cfg s t (s.arrivalCalls cfg inDev dev q p) [] := by
  unfold CallsMatch State.arrivalCalls
  rcases sendToDev_cases call with ⟨quiet, -, stops⟩ | ⟨admitted, enters, forwarded⟩
  · rw [calls_quiet quiet, List.nil_append]
    rcases stops with consumed | outside | refused
    · rw [if_pos (.inl consumed), List.append_nil]
    · rw [if_pos (.inr outside), List.append_nil]
    · rw [refused]
      split <;> rw [List.append_nil]
  · have matched : Quiet cfg s (s.matchFlow cfg dev q (p.arrived inDev)) := matchFlow_quiet _ _ _
    obtain rfl : admitted = true := by
      by_contra off
      exact mode (enters.pfcOff (Bool.eq_false_of_not_eq_true off))
    have queue := enters.queue
    rw [matched.nQueue] at queue
    have goesOn : ¬(State.consumes cfg p = true ∨ s.nQueue dev ≤ q) := by
      rintro (consumed | outside)
      · exact Bool.false_ne_true (enters.notConsumed.symm.trans consumed)
      · omega
    rw [if_neg goesOn, enters.admits,
      calls_forward rfl (charge_booked inDev dev q (p.arrived inDev) true).held forwarded
      room, calls_quiet matched, List.nil_append]
    rfl

theorem calls_same (same : t.held.filterMap (Item.call cfg) = s.held.filterMap (Item.call cfg)) :
    CallsMatch cfg s t [] [] := by
  rw [CallsMatch, same, List.append_nil, List.nil_append]

theorem notifyCalls_skipped {q : ℕ} {p : Packet n} {flowId : Option (Fin n)} (skipped : Skipped p) :
    State.notifyCalls cfg q p flowId = [] := by
  rcases skipped with prot | prot | prot <;> simp only [State.notifyCalls, prot]

theorem notifyCalls_known {q : ℕ} {p : Packet n} {flowId : Option (Fin n)} {inDev : Fin n}
    (notSkipped : ¬Skipped p)
    (known : p.inDev.or flowId = some inDev) : State.notifyCalls cfg q p flowId =
      if cfg.controlled q then [(inDev, cfg.pfcFine inDev q p, p.size)] else [] := by
  unfold State.notifyCalls
  rw [known]
  split
  · rename_i prot
    exact absurd (.inl prot) notSkipped
  · rename_i prot
    exact absurd (.inr (.inl prot)) notSkipped
  · rename_i prot
    exact absurd (.inr (.inr prot)) notSkipped
  · rfl

/-- A packet that leaves is released by the call it has been charged by. -/
theorem notifyCalls_eq (sound : Sound cfg s) {k : ℕ} {it : Item n} {flowId : Option (Fin n)}
    (front : AtFront s k it) (fits : (Event.transmit k it flowId).IngressFits cfg s) :
    State.notifyCalls cfg it.q it.packet flowId = [] ∧ it.call cfg = none ∨ ∃ inDev,
      it.packet.inDev = some inDev ∧ cfg.controlled it.q = true ∧
      State.notifyCalls cfg it.q it.packet flowId =
        [(inDev, cfg.pfcFine inDev it.q it.packet, it.size)] := by
  rcases sound.items it (List.mem_of_getElem? front.found) with frame | stored
  · refine .inl ⟨?_, call_own frame.inDev⟩
    by_cases syn : it.packet.l3Prot = .switchPsn
    · have free := fits front frame.inDev syn
      unfold State.notifyCalls
      split
      · rfl
      · rfl
      · rfl
      · split
        · rfl
        · rw [free]
          rfl
    · exact notifyCalls_skipped (frame_skipped frame syn)
  · obtain ⟨inDev, known⟩ := Option.isSome_iff_exists.mp stored.inDev
    have calls : State.notifyCalls cfg it.q it.packet flowId =
        if cfg.controlled it.q then [(inDev, cfg.pfcFine inDev it.q it.packet, it.size)] else [] :=
      notifyCalls_known stored.notSkipped (by rw [known, Option.some_or])
    cases controlled : cfg.controlled it.q with
    | false =>
      rw [controlled, if_neg Bool.false_ne_true] at calls
      exact .inl ⟨calls, call_free controlled⟩
    | true =>
      rw [if_pos controlled] at calls
      exact .inr ⟨inDev, known, rfl, calls⟩

theorem transmitCalls_eq (cfg : Config n) (s : State n) (k : ℕ) (it : Item n)
    (flowId : Option (Fin n)) : State.transmitCalls cfg s k it flowId = [] ∨
      (AtFront s k it ∧ State.transmitCalls cfg s k it flowId =
        State.notifyCalls cfg it.q it.packet flowId) := by
  unfold State.transmitCalls
  split
  · rename_i ready
    simp only [Bool.and_eq_true] at ready
    exact .inr ⟨isFront_queue ready.1.1, rfl⟩
  · exact .inl rfl

theorem calls_transmit (sound : Sound cfg s) {k : ℕ} {it : Item n} {flowId : Option (Fin n)}
    (fits : (Event.transmit k it flowId).IngressFits cfg s)
    (call : s.dequeueAndTransmit cfg k it flowId = .ok t) :
    CallsMatch cfg s t [] (s.transmitCalls cfg k it flowId) := by
  unfold State.dequeueAndTransmit at call
  unfold State.transmitCalls
  split at call
  · rename_i ready
    have front : AtFront s k it := by
      simp only [Bool.and_eq_true] at ready
      exact isFront_queue ready.1.1
    rw [if_pos ready]
    have left : t.held.filterMap (Item.call cfg) =
        (s.held.eraseIdx k).filterMap (Item.call cfg) := by
      rcases switchNotifyDequeue_cases call with ⟨-, rfl⟩ | ⟨-, inDev, -, -, -, quiet⟩
      · rfl
      · rw [calls_quiet quiet, (dischargeAll_booked _ _ _ _).held]
        rfl
    rw [CallsMatch, left, List.append_nil]
    have removed := calls_erased cfg front.found
    rcases notifyCalls_eq sound front fits with ⟨none, free⟩ | ⟨inDev, known, controlled, one⟩
    · rw [free] at removed
      rw [none]
      exact removed
    · rw [call_eq_some controlled known] at removed
      rw [one]
      exact removed
  · rename_i waits
    cases call
    rw [if_neg waits]
    exact calls_same rfl

theorem calls_elsewhere {k : ℕ} {it : Item n} (it' : Item n) (at_k : s.held[k]? = some it)
    (held : t.held = s.held.eraseIdx k ++ [it']) (packet : it'.packet = it.packet)
    (queue : it'.q = it.q) : CallsMatch cfg s t [] [] := by
  have same : it'.call cfg = it.call cfg :=
    call_congr queue (by rw [packet]) (by rw [packet]) (by rw [packet])
  have removed := calls_erased cfg at_k
  rw [CallsMatch, List.append_nil, List.nil_append, held, List.filterMap_append]
  refine removed.trans (List.perm_append_comm.trans ?_)
  rw [← same, List.filterMap_cons, List.filterMap_nil]
  cases it'.call cfg <;> exact List.Perm.refl _

theorem calls_releaseVoq (sound : Sound cfg s) {k : ℕ} {it : Item n} {toCache : Bool}
    (room : (s.releaseVoq cfg k it toCache).refused = false) :
    CallsMatch cfg s (s.releaseVoq cfg k it toCache) [] [] := by
  rcases releaseVoq_cases cfg s k it toCache with
    same | ⟨at_k, place, ⟨-, same⟩ | same⟩ <;> rw [same] at room ⊢
  · exact calls_same rfl
  · exact calls_elsewhere ⟨it.dev, it.q, .cache, false, it.packet⟩ at_k rfl rfl rfl
  · obtain ⟨-, after⟩ :=
      doEnqueue_cases (switchSend_sent (waiting_stored sound at_k (by simp [place])).inDev room)
    refine calls_elsewhere ⟨it.dev, it.q, .queue, false, it.packet⟩ at_k ?_ rfl rfl
    rw [after]
    rfl

theorem calls_releaseCache (sound : Sound cfg s) {k : ℕ} {it : Item n}
    (room : (s.releaseCache cfg k it).refused = false) :
    CallsMatch cfg s (s.releaseCache cfg k it) [] [] := by
  rcases releaseCache_cases cfg s k it with same | ⟨at_k, place, same⟩ <;> rw [same] at room ⊢
  · exact calls_same rfl
  · obtain ⟨-, after⟩ :=
      doEnqueue_cases (switchSend_sent (waiting_stored sound at_k (by simp [place])).inDev room)
    refine calls_elsewhere ⟨it.dev, it.q, .queue, false, it.packet⟩ at_k ?_ rfl rfl
    rw [after]
    rfl

theorem calls_hierMove (noDst : ∀ port, cfg.pfcMode port ≠ .dst) {m : State.Move n}
    (call : s.hierMove cfg m.1 m.2.1 m.2.2 = .ok t) :
    CallsMatch cfg s t (s.moveCalls cfg m) [] := by
  obtain ⟨k, it, nextQ⟩ := m
  unfold State.hierMove at call
  dsimp only at call
  split at call
  · rename_i inDev ready known
    have moves : s.moveCalls cfg (k, it, nextQ) =
        if cfg.controlled nextQ then [(inDev, nextQ, it.size)] else [] := by
      unfold State.moveCalls
      rw [ready, known]
    rw [moves]
    simp only [Bool.and_eq_true, decide_eq_true_eq] at ready
    have front := isFront_queue ready.1.1
    have outer : cfg.controlled it.q = false := by
      simp only [Config.controlled, Bool.and_eq_false_iff, decide_eq_false_iff_not, not_lt]
      exact .inl ready.1.2
    obtain ⟨v, removed, call⟩ := bind_ok call
    obtain ⟨-, -, rfl⟩ := removeFromEgressAdmission_ok removed
    cases enqueued : (((s.popQueue k it).subEgress it.dev it.q it.size).subBytes inDev it.dev it.q
        it.size).doEnqueue cfg it.dev nextQ true it.packet with
    | none =>
      simp only [enqueued] at call
      cases call
    | some u =>
      simp only [enqueued] at call
      obtain ⟨-, after⟩ := doEnqueue_cases enqueued
      have heldU : u.held = s.held.eraseIdx k ++ [⟨it.dev, nextQ, .queue, true, it.packet⟩] := by rw [after]; rfl
      have held : t.held = s.held.eraseIdx k ++ [⟨it.dev, nextQ, .queue, true, it.packet⟩] := by
        rw [← Except.ok.inj call]
        split
        · rw [(updateIngressAdmission_booked _ _ _).held]
          exact heldU
        · exact heldU
      have left := calls_erased cfg front.found
      rw [call_free outer] at left
      have one : [(⟨it.dev, nextQ, .queue, true, it.packet⟩ : Item n)].filterMap (Item.call cfg) =
          if cfg.controlled nextQ then [(inDev, nextQ, it.size)] else [] := by
        have fine : cfg.pfcFine inDev nextQ it.packet = nextQ := if_neg (noDst inDev)
        simp only [List.filterMap_cons, List.filterMap_nil, Item.call, known]
        split <;> simp_all [Item.size]
      rw [CallsMatch, held, List.filterMap_append, one, List.nil_append]
      exact left.append_right _
  · rename_i none
    cases call
    have no : s.moveCalls cfg (k, it, nextQ) = [] := by
      unfold State.moveCalls
      dsimp only
      split
      · rename_i inDev ready known
        exact (none inDev ready known).elim
      · rfl
    rw [no]
    exact calls_same rfl

theorem CallsMatch.trans {u : State n} {first second : List (Call n)}
    (one : CallsMatch cfg s t first [])
    (two : CallsMatch cfg t u second []) : CallsMatch cfg s u (first ++ second) [] := by
  unfold CallsMatch at one two ⊢
  rw [List.nil_append] at one two ⊢
  rw [← List.append_assoc]
  exact (one.append_right second).trans two

theorem calls_round (noDst : ∀ port, cfg.pfcMode port ≠ .dst) {moves : List (State.Move n)}
    (call : moves.foldlM (fun s m => s.hierMove cfg m.1 m.2.1 m.2.2) s = .ok t) :
    CallsMatch cfg s t (s.roundCalls cfg moves) [] := by
  induction moves generalizing s with
  | nil =>
    cases call
    exact calls_same rfl
  | cons m rest ih =>
    rw [List.foldlM_cons] at call
    obtain ⟨u, moved, call⟩ := bind_ok call
    rw [State.roundCalls, moved]
    exact (calls_hierMove noDst moved).trans (ih call)

theorem calls_step (kept : cfg.IngressKept) (sound : Sound cfg s) {ev : Event n}
    (fits : ev.IngressFits cfg s) (call : s.step cfg ev = .ok t) (room : t.refused = false) :
    CallsMatch cfg s t (s.updates cfg ev) (s.removes cfg ev) := by
  cases ev with
  | arrive p inDev dev q ch => exact calls_sendToDev kept.mode call room
  | transmit k it flowId => exact calls_transmit sound fits call
  | hierRR moves =>
    unfold State.step State.doHierQRR at call
    dsimp only at call
    unfold State.updates State.removes
    dsimp only
    split at call
    · rename_i mode
      rw [if_pos mode]
      exact calls_round (kept.hier mode) call
    · rename_i mode
      cases call
      rw [if_neg mode]
      exact calls_same rfl
  | releaseVoq k it toCache =>
    cases call
    exact calls_releaseVoq sound room
  | releaseCache k it =>
    cases call
    exact calls_releaseCache sound room
  | sendFrame dev p =>
    cases call
    exact calls_same (calls_quiet (sendFrame_quiet dev p))
  | registerQ dev =>
    cases call
    exact calls_same rfl
  | takeDown dev limited => exact fits.elim

/-! ### Runs -/

namespace State

/-- The runs all of whose steps satisfy `allowed`, with the calls of `UpdateIngressAdmission` and
those of `RemoveFromIngressAdmission` they have made. -/
inductive Logged (cfg : Config n) (allowed : State n → Event n → Prop) :
    State n → List (Call n) → List (Call n) → Prop where
  | initial : Logged cfg allowed {} [] []
  | step {s t : State n} {ups downs : List (Call n)} {ev : Event n} :
      Logged cfg allowed s ups downs → allowed s ev → s.step cfg ev = .ok t →
      Logged cfg allowed t (ups ++ s.updates cfg ev) (downs ++ s.removes cfg ev)

theorem Logged.reachable {allowed : State n → Event n → Prop} {ups downs : List (Call n)}
    (h : Logged cfg allowed s ups downs) : Reachable cfg allowed s := by
  induction h with
  | initial => exact .initial
  | step _ ok call ih => exact .step ih ok call

end State

theorem calls_logged (kept : cfg.IngressKept) {ups downs : List (Call n)}
    (logged : State.Logged cfg (fun s ev => ev.IngressFits cfg s) s ups downs)
    (room : s.refused = false) : ups.Perm (downs ++ s.held.filterMap (Item.call cfg)) := by
  induction logged with
  | initial => exact List.Perm.refl _
  | @step s t ups downs ev before fits call ih =>
    have sound := (right_reachable kept before.reachable).1
    have matched := calls_step kept sound fits call room
    have counted := (ih (refused_step sound call room)).append_right (s.updates cfg ev)
    rw [List.append_assoc] at counted
    rw [List.append_assoc]
    exact counted.trans (matched.append_left downs)

theorem removes_fit (kept : cfg.IngressKept)
    (reach : State.Reachable cfg (fun s ev => ev.IngressFits cfg s) s)
    (room : s.refused = false) {ev : Event n} (fits : ev.IngressFits cfg s) {c : Call n}
    (member : c ∈ s.removes cfg ev) : RemoveFits s c := by
  obtain ⟨sound, right⟩ := right_reachable kept reach
  cases ev with
  | transmit k it flowId =>
    rcases transmitCalls_eq cfg s k it flowId with none | ⟨front, same⟩
    · rw [State.removes, none] at member
      cases member
    · rw [State.removes, same] at member
      rcases notifyCalls_eq sound front fits with ⟨none, -⟩ | ⟨inDev, known, controlled, one⟩
      · rw [none] at member
        cases member
      · rw [one, List.mem_singleton] at member
        rw [member]
        exact removeFits (right room).books (List.mem_of_getElem? front.found) controlled known
  | _ => cases member

/-- The ingress counters are what is buffered, and every release matches a charge, in the runs in
which no queue refuses a packet, no link is lost, less than 2^32 bytes are buffered, and no SYN of
the switch itself leaves through a PFC-controlled queue. -/
theorem ingress_conserved (kept : cfg.IngressKept) {ups downs : List (Call n)}
    (logged : State.Logged cfg (fun s ev => ev.IngressFits cfg s) s ups downs)
    (room : s.refused = false) :
    IngressBooks cfg s s.held ∧ ups.Perm (downs ++ s.held.filterMap (Item.call cfg)) ∧
      ∀ ev : Event n, ev.IngressFits cfg s → ∀ c ∈ s.removes cfg ev, RemoveFits s c :=
  ⟨((right_reachable kept logged.reachable).2 room).books, calls_logged kept logged room,
    fun _ fits _ => removes_fit kept logged.reachable room fits⟩

/-- PFC with one controlled queue, and room for `room` bytes at each port. -/
def controlledConfig (room : Fin 100001) : Config 3 :=
  { smallConfig .pfc with
    pfcIngressCtrls := fun q => decide (q = 1)
    maxBytes := room
    maxBytes_le := room_le room }

instance (s : State n) (k : ℕ) (it : Item n) : Decidable (AtFront s k it) :=
  decidable_of_iff (s.held[k]? = some it ∧ it.place = .queue)
    ⟨fun h => ⟨h.1, h.2⟩, fun h => ⟨h.found, h.place⟩⟩

instance (cfg : Config n) (s : State n) (ev : Event n) : Decidable (ev.IngressFits cfg s) :=
  match ev with
  | .arrive p _ _ _ _ => inferInstanceAs (Decidable (s.arrivedBytes + p.size < 2 ^ 32))
  | .transmit k it _ => inferInstanceAs (Decidable (AtFront s k it → it.packet.inDev = none →
      it.packet.l3Prot = .switchPsn → cfg.controlled it.q = false))
  | .takeDown .. => .isFalse id
  | .hierRR _ | .releaseVoq .. | .releaseCache .. | .sendFrame .. | .registerQ _ => .isTrue trivial

/-- The run of a list of events that fit, with the calls it makes. -/
def State.logRun (cfg : Config n) (log : State n × List (Call n) × List (Call n))
    (evs : List (Event n)) : Option (State n × List (Call n) × List (Call n)) :=
  evs.foldlM (fun log ev =>
    if ev.IngressFits cfg log.1 then
      (log.1.step cfg ev).toOption.map fun t =>
        (t, log.2.1 ++ log.1.updates cfg ev, log.2.2 ++ log.1.removes cfg ev)
    else none) log

theorem logged_run {log log' : State n × List (Call n) × List (Call n)} {evs : List (Event n)}
    (start : State.Logged cfg (fun s ev => ev.IngressFits cfg s) log.1 log.2.1 log.2.2)
    (ends : State.logRun cfg log evs = some log') :
    State.Logged cfg (fun s ev => ev.IngressFits cfg s) log'.1 log'.2.1 log'.2.2 := by
  induction evs generalizing log with
  | nil =>
    cases ends
    exact start
  | cons ev rest ih =>
    obtain ⟨mid, first, ends⟩ := Option.bind_eq_some_iff.mp ((List.foldlM_cons ..).symm.trans ends)
    split at first
    · rename_i fits
      obtain ⟨t, call, rfl⟩ := Option.map_eq_some_iff.mp first
      exact ih (.step start fits (toOption_eq_some.mp call)) ends
    · cases first

/-- The same with nothing to share, so that the first packet pauses its port, and room for 99
bytes. -/
def tightConfig : Config 3 :=
  { controlledConfig 100 with
    bufferSize := 28192
    bufferSize_lt := by omega }

def roomyConfig : Config 3 := controlledConfig 100000

/-- The same with more room: what exceeds the reserve is charged to the headroom. -/
def headroomConfig : Config 3 :=
  { tightConfig with
    maxBytes := roomyConfig.maxBytes
    maxBytes_le := roomyConfig.maxBytes_le }

/-- Two packets in the headroom behind one that leaves, and one from the other port. -/
def headroomRun : List (Event 3) :=
  let sent : Item 3 := ⟨2, 1, .queue, true, (smallPacket .udp 2999).arrived 1⟩
  [.arrive (smallPacket .udp 2999) 1 2 1 ⟨.pass, false⟩,
    .arrive (smallPacket .udp 1999) 1 2 1 ⟨.pass, false⟩,
   .arrive (smallPacket .udp 1499) 1 2 1 ⟨.pass, false⟩,
     .arrive (smallPacket .udp 499) 2 1 1 ⟨.pass, false⟩, .transmit 1 sent none]

theorem ingress_conserved_headroom : ∃ (s : State 3) (ups downs : List (Call 3)),
    s.hdrmBytes 1 1 = 500 ∧
    ups = [(1, 1, 3000), (1, 1, 2000), (1, 1, 1500), (2, 1, 500)] ∧ downs = [(1, 1, 3000)] ∧
    IngressBooks headroomConfig s s.held ∧
    ups.Perm (downs ++ s.held.filterMap (Item.call headroomConfig)) := by
  have ends : ((State.logRun headroomConfig ({}, [], []) headroomRun).any fun log =>
      decide (log.1.hdrmBytes 1 1 = 500 ∧
        log.2.1 = [(1, 1, 3000), (1, 1, 2000), (1, 1, 1500), (2, 1, 500)] ∧
        log.2.2 = [(1, 1, 3000)] ∧ log.1.refused = false)) = true := by decide +kernel
  obtain ⟨⟨s, ups, downs⟩, run, facts⟩ := (Option.any_eq_true ..).mp ends
  obtain ⟨hdrm, charged, released, room⟩ := of_decide_eq_true facts
  have kept : headroomConfig.IngressKept := ⟨by decide, by decide⟩
  have start : State.Logged headroomConfig (fun s ev => ev.IngressFits headroomConfig s) {} [] [] :=
    .initial
  obtain ⟨books, perm, -⟩ := ingress_conserved kept (logged_run start run) room
  exact ⟨s, ups, downs, hdrm, charged, released, books, perm⟩

/-- A packet that is admitted and then refused by its queue stays charged for ever; the PFC frame of
the first packet hides it from `DoStatistics`. -/
theorem refused_charged : ∃ s : State 3, tightConfig.IngressKept ∧
    State.Reachable tightConfig (fun s ev => ev.IngressFits tightConfig s) s ∧
    tally Item.size (Item.charged tightConfig 1 1) s.held = 60 ∧ s.ingressBytes 1 1 = 110 ∧
    ¬IngressBooks tightConfig s s.held := by
  let first : Event 3 := .arrive (smallPacket .udp 59) 1 2 1 ⟨.pass, false⟩
  let second : Event 3 := .arrive (smallPacket .udp 49) 1 2 1 ⟨.pass, false⟩
  obtain ⟨s, t, ends, call, small, facts⟩ := State.run_step tightConfig [first] second
    (fun s => decide (s.arrivedBytes = 60))
    (fun t => decide (tally Item.size (Item.charged tightConfig 1 1) t.held = 60 ∧
      t.ingressBytes 1 1 = 110 ∧ t.hdrmBytes 1 1 = 0)) (by decide +kernel)
  obtain ⟨held, charged, hdrm⟩ := of_decide_eq_true facts
  have fits : ∀ u : State 3, u.arrivedBytes ≤ 60 → first.IngressFits tightConfig u ∧
      second.IngressFits tightConfig u := by
    intro u below
    constructor
    · show u.arrivedBytes + 60 < 2 ^ 32
      omega
    · show u.arrivedBytes + 50 < 2 ^ 32
      omega
  obtain ⟨u, firstCall, nothing⟩ := bind_ok ends
  cases nothing
  have reach := State.Reachable.step (.step .initial (fits {} (by decide)).1 firstCall)
    (fits s (of_decide_eq_true small).le).2 call
  refine ⟨t, ⟨by decide, by decide⟩, reach, held, charged, fun books => ?_⟩
  have total := books.charged 1 1
  rw [held, charged, hdrm] at total
  omega

end Buffer

end Pyrrha

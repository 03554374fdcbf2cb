import Pyrrha.Switch.Tables

/-!
Invariants of the control state of a switch with coherent tables: what the control updates and the
counting of packets preserve, every run preserves.
-/

namespace Pyrrha
open Lib Relation

variable {n : ℕ} {cfg : Config n}

namespace Switch

/-- Nothing but buffers and admission counters differs between `s` and `t`. -/
structure SameControl (s t : Switch n) : Prop where
  entries : t.congestionEntries = s.congestionEntries
  ciqRootMap : t.ciqRootMap = s.ciqRootMap
  upstreamPaused : t.upstreamPaused = s.upstreamPaused
  paused : t.paused = s.paused
  out : t.out = s.out

/-- A property of the control state that control updates and counting preserve, for the signals in
`sig`. -/
structure ControlInvariant (cfg : Config n) (sig : CITag → Fin n → Prop) (I : Switch n → Prop) :
    Prop where
  same : ∀ {s t}, I s → SameControl s t → I t
  packet : ∀ {s t}, Tables s → I s → PacketCtl cfg s t → I t
  signal : ∀ {s t tag p}, Tables s → I s → sig tag p → SignalCtl cfg tag p s t → I t
  count : ∀ {s root e} (i : Fin n) (v : ℕ), I s → s.getEntry root = some e →
    I (s.setEntry root (e.setCounter i v))

variable {sig : CITag → Fin n → Prop} {I : Switch n → Prop}

theorem control_packets (C : ControlInvariant cfg sig I) {s t : Switch n} (T : Tables s)
    (start : I s) (h : PacketCtls cfg s t) : I t :=
  (packetCtls_preserve (I := fun s => Tables s ∧ I s)
    (fun _ _ before last => ⟨packetCtl_tables before.1 last, C.packet before.1 before.2 last⟩)
    ⟨T, start⟩ h).2

theorem control_signals (C : ControlInvariant cfg sig I) {s t : Switch n} {tag : CITag} {p : Fin n}
    (allowed : sig tag p) (T : Tables s) (start : I s) (h : SignalCtls cfg tag p s t) : I t :=
  (signalCtls_preserve (I := fun s => Tables s ∧ I s)
    (fun _ _ before last => ⟨packetCtl_tables before.1 last, C.packet before.1 before.2 last⟩)
    (fun _ _ before last => ⟨signalCtl_tables before.1 last,
      C.signal before.1 before.2 allowed last⟩)
    ⟨T, start⟩ h).2

theorem control_enqueue (C : ControlInvariant cfg sig I) {s t : Switch n} {idx : Fin n} {q : ℕ}
    {p : Packet n} (T : Tables s) (start : I s) (h : s.notifyEnqueue cfg idx q p = .ok t) :
    I t := by
  rcases notifyEnqueue_ctl h with ⟨_, steps⟩ | ⟨_, root, e, _, found, steps⟩
  · exact control_packets C T start steps
  · exact control_packets C (count_tables T found _ _) (C.count _ _ start found) steps

theorem control_dequeue (C : ControlInvariant cfg sig I) {s t : Switch n} {idx : Fin n} {q : ℕ}
    {p : Packet n} (T : Tables s) (start : I s) (h : s.notifyDequeue cfg idx q p = .ok t) :
    I t := by
  rcases notifyDequeue_ctl h with ⟨_, steps⟩ | ⟨_, root, e, _, found, steps⟩
  · exact control_packets C T start steps
  · exact control_packets C (count_tables T found _ _) (C.count _ _ start found) steps

theorem control_setEgress (C : ControlInvariant cfg sig I) {s : Switch n} (start : I s)
    (dev : Fin n)
    (q bytes : ℕ) : I (s.setEgress dev q bytes) := C.same start ⟨rfl, rfl, rfl, rfl, rfl⟩

theorem control_switchSend (C : ControlInvariant cfg sig I) {s : Switch n} (start : I s)
    (dev : Fin n) (q : ℕ) (p : Packet n) : I (s.switchSend cfg dev q p) := by
  rcases switchSend_cases cfg s dev q p with same | pushed
  · rw [same]
    exact start
  · rw [pushed]
    exact C.same start ⟨rfl, rfl, rfl, rfl, rfl⟩

theorem control_accept (C : ControlInvariant cfg sig I) {s t : Switch n} {idx : Fin n}
    {p : Packet n} (T : Tables s) (start : I s) (h : s.acceptPacket cfg idx p = .ok t) : I t := by
  rcases acceptPacket_cases h with rfl | ⟨q, u, _, _, _, entered, rfl⟩
  · exact start
  have charged := control_setEgress C start idx q (add32 (s.egressBytes idx q) p.size)
  exact control_switchSend C (control_enqueue C (egress_tables T idx q _) charged entered) idx q p

theorem control_transmit (C : ControlInvariant cfg sig I) {s t : Switch n} {dev : Fin n}
    {pick : Option (ℕ × ℕ)} (T : Tables s) (start : I s)
    (h : s.dequeueAndTransmit cfg dev pick = .ok t) : I t := by
  rcases dequeueAndTransmit_cases h with rfl | ⟨q, k, p, _, _, head, left⟩
  · exact start
  have T' := sent_tables T head
  have sent : I ((s.popQueue dev q k p).transmitStart dev q p) :=
    C.same start ⟨rfl, rfl, rfl, rfl, rfl⟩
  rcases switchNotifyDequeue_cases left with ⟨_, rfl⟩ | ⟨_, _, u, removed, notified⟩
  · exact sent
  · obtain ⟨_, rfl⟩ := removeFromEgressAdmission_ok removed
    exact control_dequeue C (egress_tables T' dev q _) (control_setEgress C sent dev q _) notified

theorem control_move (C : ControlInvariant cfg sig I) {s t : Switch n} {dev : Fin n} {level q : ℕ}
    {b b' : Bool} (T : Tables s) (start : I s) (h : hierMove cfg dev level (s, b) q = .ok (t, b')) :
    I t := by
  rcases hierMove_cases h with rfl | ⟨p, rest, nextQ, u, v, w, head, _, left, removed, entered, rfl⟩
  · exact start
  have popped : I (s.popQueue dev q 0 p) := C.same start ⟨rfl, rfl, rfl, rfl, rfl⟩
  have T' := head_tables T head
  have out := control_dequeue C T' popped left
  have T₂ := moved_tables T' left removed entered
  obtain ⟨_, rfl⟩ := removeFromEgressAdmission_ok removed
  have pushed :=
    C.same out (t := (u.setEgress dev q (u.egressBytes dev q - p.size)).pushQueue dev p nextQ)
    ⟨rfl, rfl, rfl, rfl, rfl⟩
  exact control_setEgress C (control_enqueue C T₂ pushed entered) dev nextQ _

theorem control_step (C : ControlInvariant cfg sig I) {s t : Switch n} {ev : Event n} (T : Tables s)
    (signals : ∀ tag p pick, ev = .receiveCI tag p pick → sig tag p) (start : I s)
    (h : s.step cfg ev = .ok t) : I t := by
  refine (step_induct (I := fun s => Tables s ∧ I s) ⟨?_, ?_, ?_, ?_, ?_⟩ ⟨T, start⟩ h).2
  · exact fun idx p pick u _ _ call => ⟨acceptPacket_tables T call, control_accept C T start call⟩
  · exact fun u v dev pick before call =>
      ⟨dequeueAndTransmit_tables before.1 call, control_transmit C before.1 before.2 call⟩
  · exact fun u v dev level q b b' before _ call =>
      ⟨hierMove_tables before.1 call, control_move C before.1 before.2 call⟩
  · exact fun tag p pick u event steps =>
      ⟨signalCtls_tables T steps, control_signals C (signals tag p pick event) T start steps⟩
  · exact fun dev p _ => ⟨frame_switchSend cfg T dev p, control_switchSend C start dev 0 p⟩

theorem control_reachable (C : ControlInvariant cfg (fun _ _ => True) I) (initial : I {})
    {allowed : Switch n → Event n → Switch n → Prop} {s : Switch n} (h : Reachable cfg allowed s) :
    I s := by
  induction h with
  | initial => exact initial
  | step before call _ ih =>
      exact control_step C (reachable_tables before) (fun _ _ _ _ => trivial) ih call

end Switch

end Pyrrha

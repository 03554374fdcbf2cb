import Pyrrha.Buffer.PauseFlags
import Pyrrha.Buffer.Egress

/-!
Why a PFC pause is released: a paused index has packets charged to it, and when the last of them
leaves, nothing is left in its counters that could hold back the resume.
-/

namespace Pyrrha
open Lib

namespace Buffer

variable {n : ℕ} {cfg : Config n} {s t u : State n}

/-- A paused index has bytes charged to it. -/
def PausedCharged (s : State n) : Prop := ∀ i x, s.paused i x = true →
    0 < s.ingressBytes i x + s.hdrmBytes i x

theorem pausedCharged_same (h : PausedCharged s) (paused : t.paused = s.paused)
    (same : SameIngress s t) : PausedCharged t := by
  intro i x flag
  rw [paused] at flag
  rw [same.ingress, same.hdrm]
  exact h i x flag

theorem releaseVoq_sameIngress (k : ℕ) (it : Item n) (toCache : Bool) :
    SameIngress s (s.releaseVoq cfg k it toCache) := by
  have popped : SameIngress s (s.popVoq k it) := ⟨rfl, rfl, rfl⟩
  rcases releaseVoq_cases cfg s k it toCache with same | ⟨-, -, ⟨-, same⟩ | same⟩ <;> rw [same]
  · exact ⟨rfl, rfl, rfl⟩
  · exact popped.trans ⟨rfl, rfl, rfl⟩
  · exact popped.trans (switchSend_sameIngress _ _ _ _)

theorem releaseCache_sameIngress (k : ℕ) (it : Item n) :
    SameIngress s (s.releaseCache cfg k it) := by
  have popped : SameIngress s (s.popCache k it) := ⟨rfl, rfl, rfl⟩
  rcases releaseCache_cases cfg s k it with same | ⟨-, -, same⟩ <;> rw [same]
  · exact ⟨rfl, rfl, rfl⟩
  · exact popped.trans (switchSend_sameIngress _ _ _ _)

/-! ### An arrival -/

/-- Wherever a packet that goes on to the window check ends up, it is buffered for its queue. -/
theorem forward_held {inDev dev : Fin n} {q : ℕ} {p : Packet n} {ch : Choice}
    (known : p.inDev = some inDev)
    (call : s.forward cfg inDev dev q p ch = .ok t) (room : t.refused = false) : ∃ frames it,
      t.held = s.held ++ frames ++ [it] ∧ it.q = q ∧ it.packet.inDev = some inDev ∧
      it.packet.dst = p.dst := by
  rcases forward_cases call with ⟨-, rfl⟩ | ⟨-, rfl⟩ | ⟨-, u, quiet, rfl, -⟩
  · exact ⟨[], ⟨dev, q, .voq, false, p⟩, by rw [List.append_nil]; rfl, rfl, known, rfl⟩
  · exact ⟨[], ⟨dev, q, .cache, false, p⟩, by rw [List.append_nil]; rfl, rfl, known, rfl⟩
  · obtain ⟨-, after⟩ := doEnqueue_cases (switchSend_sent (by rw [marked_inDev, known]; rfl) room)
    obtain ⟨frames, held, -⟩ := quiet.held
    rw [((addBytes_booked inDev dev q p.size).trans
      (chargeMode_booked inDev dev q p ch.bfcPause)).held] at held
    refine ⟨frames, ⟨dev, q, .queue, true, p.marked cfg q ch.bfcPause⟩, ?_, rfl, ?_, ?_⟩
    · rw [after, ← held]
    · rw [marked_inDev]
      exact known
    · exact marked_dst q ch.bfcPause p

theorem pausedCharged_sendToDev (h : PausedCharged s) (before : IngressRight cfg s)
    (after : IngressRight cfg t)
    (mode : cfg.fcMode ≠ .voqDstPfc) {inDev dev : Fin n} {q : ℕ} {p : Packet n} {ch : Choice}
    (call : s.sendToDev cfg inDev dev q p ch = .ok t) (room : t.refused = false) :
    PausedCharged t := by
  have raises := sendToDev_raises call
  rcases sendToDev_cases call with ⟨-, rfl | rfl, -⟩ | ⟨admitted, -, forwarded⟩
  · exact h
  · exact pausedCharged_same h (matchFlow_flags cfg s dev q (p.arrived inDev)).1
      (matchFlow_quiet dev q (p.arrived inDev)).sameIngress
  · obtain ⟨frames, it, held, queue, known, dst⟩ := forward_held rfl forwarded room
    obtain ⟨more, matched, -⟩ := (@matchFlow_quiet n cfg s dev q (p.arrived inDev)).held
    rw [(charge_booked inDev dev q (p.arrived inDev) admitted).held, matched] at held
    intro i x flag
    rw [after.books.charged, held, tally_concat, tally_append, tally_append]
    rcases raises.raised i x flag with old | ⟨⟨rfl, ⟨controlled, rfl⟩ | ⟨dstPfc, -⟩⟩, -⟩
    · have charged := h i x old
      rw [before.books.charged] at charged
      omega
    · have entered : it.charged cfg i (cfg.pfcFine i q p) = true := by
        rw [charged_iff known (by rw [queue]; exact controlled), queue]
        exact ⟨rfl, by simp only [Config.pfcFine, dst]; rfl⟩
      have pos := size_pos it
      rw [if_pos entered]
      omega
    · exact absurd dstPfc mode

/-! ### A departure -/

/-- The last packet charged to an index leaves nothing in its counters, so the resume test
passes. -/
theorem last_resumes (books : IngressBooks cfg s s.held) (fits : s.arrivedBytes < 2 ^ 32)
    {port : Fin n} {k : ℕ}
    {it : Item n} (at_k : s.held[k]? = some it) (known : it.packet.inDev = some port)
    (controlled : cfg.controlled it.q = true)
    (last : tally Item.size (Item.charged cfg port (cfg.pfcFine port it.q it.packet))
      (s.held.eraseIdx k) = 0)
    (paused : s.paused port (cfg.pfcFine port it.q it.packet) = true) :
    (s.releaseIngress cfg port it.q it.packet).checkShouldResume cfg port
    (cfg.pfcFine port it.q it.packet) = true := by
  have released : IngressBooks cfg (s.releaseIngress cfg port it.q it.packet)
      (s.held.eraseIdx k) := by
    rw [State.releaseIngress, if_pos controlled]
    exact ingress_release books at_k known controlled fits
  have left := released.charged port (cfg.pfcFine port it.q it.packet)
  rw [last] at left
  rw [← (releaseIngress_booked port it.q it.packet).paused] at paused
  generalize s.releaseIngress cfg port it.q it.packet = v at left paused ⊢
  have ingress : v.ingressBytes port (cfg.pfcFine port it.q it.packet) = 0 := by omega
  have hdrm : v.hdrmBytes port (cfg.pfcFine port it.q it.packet) = 0 := by omega
  simp [State.checkShouldResume, State.getSharedUsed, ingress, hdrm, paused]

theorem SameIngress.release (h : SameIngress s t) (inDev : Fin n) (q : ℕ) (p : Packet n) :
    SameIngress (s.releaseIngress cfg inDev q p) (t.releaseIngress cfg inDev q p) := by
  unfold State.releaseIngress State.removeFromIngressAdmission
  rw [h.ingress, h.hdrm, h.shared]
  split
  · exact ⟨rfl, rfl, rfl⟩
  · exact h

theorem SameIngress.resume (h : SameIngress s t) (paused : t.paused = s.paused)
    (i : Fin n) (x : ℕ) : t.checkShouldResume cfg i x = s.checkShouldResume cfg i x := by
  unfold State.checkShouldResume
  rw [paused, h.hdrm, h.sharedUsed, h.threshold]

/-- A PFC frame waits in queue 0 of its device, if there is room for it. -/
theorem sendPfc_held (dev : Fin n) (idx : ℕ) (pause : Bool)
    (space : add32 (s.bytesInQueueTotal dev) cfg.pfcSize < cfg.maxBytes) :
    (⟨dev, 0, .queue, false, State.pfcFrame cfg⟩ : Item n) ∈
    (s.sendPfc cfg dev idx pause).held := by
  have sent :=
    @switchSend_accepts n cfg { s with pfcFrames := s.pfcFrames ++ [(dev, idx, pause)] } dev 0 false
    (State.pfcFrame cfg) space
  obtain ⟨-, after⟩ := doEnqueue_cases sent
  unfold State.sendPfc
  rw [after]
  exact List.mem_append_right _ List.mem_cons_self

theorem notify_resumes (mode : cfg.fcMode ≠ .voqDstPfc) {port dev : Fin n} {q : ℕ} {p : Packet n}
    {flowId : Option (Fin n)} (notSkipped : ¬Skipped p) (known : p.inDev = some port)
    (controlled : cfg.controlled q = true)
    (test : (s.releaseIngress cfg port q p).checkShouldResume cfg port (cfg.pfcFine port q p) =
      true)
    (call : s.switchNotifyDequeue cfg dev q p flowId = .ok t) :
    t.paused port (cfg.pfcFine port q p) = false ∧
      s.pfcFrames ++ [(port, cfg.pfcFine port q p, false)] <+: t.pfcFrames ∧
      (add32 (s.bytesInQueueTotal port) cfg.pfcSize < cfg.maxBytes →
        (⟨port, 0, .queue, false, State.pfcFrame cfg⟩ : Item n) ∈ t.held) := by
  rcases switchNotifyDequeue_resume call with ⟨skipped, -⟩ | ⟨inDev, w, from_, rfl, departs⟩
  · exact absurd skipped notSkipped
  · obtain rfl : port = inDev := by
      rw [known, Option.some_or] at from_
      exact Option.some.inj from_
    have booked := @discharge_booked n cfg s port dev q p
    have passes : (s.discharge cfg port dev q p).checkShouldResume cfg port (cfg.pfcFine port q p) =
        true := by
      rw [(discharge_sameIngress port dev q p).resume
        (booked.paused.trans (releaseIngress_booked port q p).paused.symm)]
      exact test
    obtain ⟨more, held, -⟩ := (departMode_effect departs).held
    obtain ⟨flags, sent⟩ := departMode_flags mode departs
    rw [if_pos controlled, State.checkAndSendResume, if_pos passes] at flags sent held
    refine ⟨?_, ?_, fun space => ?_⟩
    · rw [flags]
      exact update₂_same _ _ _ _
    · rw [← booked.pfcFrames, ← (sendPfc_flags port (cfg.pfcFine port q p) false).2]
      exact sent
    · rw [held, (dischargeMode_booked port dev q p).held]
      exact List.mem_append_left _ (sendPfc_held port (cfg.pfcFine port q p) false (by rw [booked.bytesInQueueTotal]; exact space))

/-- `DequeueAndTransmit` sends the packet when it is the first of its queue and the link is up. -/
theorem dequeueAndTransmit_sends {k : ℕ} {it : Item n} {flowId : Option (Fin n)}
    (front : s.isFront cfg.pifo .queue k it = true) (up : s.linkUp it.dev = true)
    (controlled : cfg.controlled it.q = true)
    (call : s.dequeueAndTransmit cfg k it flowId = .ok t) :
    (s.popQueue k it).switchNotifyDequeue cfg it.dev it.q it.packet flowId = .ok t := by
  simp only [Config.controlled, Bool.and_eq_true, decide_eq_true_eq] at controlled
  unfold State.dequeueAndTransmit at call
  rw [if_pos (by simp [front, up, controlled.1])] at call
  exact call

theorem pausedCharged_transmit (sound : Sound cfg s) (h : PausedCharged s)
    (before : IngressRight cfg s)
    (after : IngressRight cfg t) (mode : cfg.fcMode ≠ .voqDstPfc) {k : ℕ} {it : Item n}
    {flowId : Option (Fin n)}
    (call : s.dequeueAndTransmit cfg k it flowId = .ok t) : PausedCharged t := by
  have clears := transmit_clears call
  rcases transmit_cases sound call with rfl | ⟨front, frame, rfl⟩ | ⟨inDev, front, kind, -, -,
    notified, quiet⟩
  · exact h
  · exact pausedCharged_same h rfl (popQueue_sameIngress k it)
  · obtain ⟨frames, held, areFrames⟩ := quiet.held
    rw [(dischargeAll_booked inDev it.dev it.q it.packet).held] at held
    intro i x flag
    have old := h i x (clears.lowered i x flag)
    have entries := tally_eraseIdx (w := Item.size) (p := Item.charged cfg i x) front.found
    have left : tally Item.size (Item.charged cfg i x) t.held =
        tally Item.size (Item.charged cfg i x) (s.held.eraseIdx k) := by
      rw [held, tally_append, tally_charged_frames areFrames, Nat.add_zero]
      rfl
    rw [after.books.charged, left]
    rw [before.books.charged, ← entries] at old
    by_contra none
    have last : tally Item.size (Item.charged cfg i x) (s.held.eraseIdx k) = 0 := by omega
    have mine : it.charged cfg i x = true := by
      by_contra other
      rw [last, if_neg other] at old
      omega
    -- the packet was the last of its index, so the flag is cleared
    rcases kind with ⟨frame, -⟩ | ⟨stored, known⟩
    · rw [charged_own frame.inDev] at mine
      cases mine
    · have controlled : cfg.controlled it.q = true := by
        by_contra free
        rw [charged_uncontrolled it (Bool.eq_false_of_not_eq_true free)] at mine
        cases mine
      obtain ⟨rfl, rfl⟩ := (charged_iff known controlled i x).mp mine
      have test := last_resumes before.books before.fits front.found known controlled last
        (clears.lowered _ _ flag)
      have popped :=
        @SameIngress.release n cfg _ _ (popQueue_sameIngress (s := s) k it) i it.q it.packet
      rw [← popped.resume (by rw [(releaseIngress_booked i it.q it.packet).paused,
        (releaseIngress_booked i it.q it.packet).paused]; rfl)] at test
      rw [(notify_resumes mode stored.notSkipped known controlled test notified).1] at flag
      cases flag

/-! ### Runs -/

theorem pausedCharged_hierMove (h : PausedCharged s) (before : IngressRight cfg s)
    (after : IngressRight cfg t) {k : ℕ}
    {it : Item n} {nextQ : ℕ} (call : s.hierMove cfg k it nextQ = .ok t) : PausedCharged t := by
  have flags := (hierMove_flags call).1
  rcases hierMove_cases call with rfl | ⟨inDev, u, front, -, outer, -, -, -, sent, rfl⟩
  · exact h
  · have free : cfg.controlled it.q = false := by
      simp only [Config.controlled, Bool.and_eq_false_iff, decide_eq_false_iff_not, not_lt]
      exact .inl outer
    obtain ⟨-, enqueued⟩ := doEnqueue_cases sent
    have heldU : u.held = s.held.eraseIdx k ++ [⟨it.dev, nextQ, .queue, true, it.packet⟩] := by
      rw [enqueued]
      rfl
    intro i x flag
    rw [flags] at flag
    have old := h i x flag
    have entries := tally_eraseIdx (w := Item.size) (p := Item.charged cfg i x) front.found
    rw [charged_uncontrolled it free, if_neg Bool.false_ne_true] at entries
    rw [before.books.charged, ← entries] at old
    rw [after.books.charged]
    have heldT : ∀ v : State n, v.held = u.held →
        0 < tally Item.size (Item.charged cfg i x) v.held := by
      intro v same
      rw [same, heldU, tally_concat]
      omega
    refine heldT _ ?_
    split
    · rw [(updateIngressAdmission_booked _ _ _).held]
      rfl
    · rfl

theorem pausedCharged_step (sound : Sound cfg s) (h : PausedCharged s) (before : IngressRight cfg s)
    (mode : cfg.fcMode ≠ .voqDstPfc) {ev : Event n} (safe : ev.IngressSafe cfg s)
    (call : s.step cfg ev = .ok t) (room : t.refused = false) : PausedCharged t := by
  have after := right_step sound before safe call room
  cases ev with
  | arrive p inDev dev q ch => exact pausedCharged_sendToDev h before after mode call room
  | transmit k it flowId => exact pausedCharged_transmit sound h before after mode call
  | hierRR moves =>
    rw [State.step, State.doHierQRR] at call
    split at call
    · rename_i hier
      have move : ∀ m ∈ moves, ∀ u v : State n, IngressRight cfg u ∧ PausedCharged u →
          u.hierMove cfg m.1 m.2.1 m.2.2 = .ok v → IngressRight cfg v ∧ PausedCharged v := by
        intro m member u v both moved
        have right := right_hierMove both.1 (safe hier m member) moved
        exact ⟨right, pausedCharged_hierMove both.2 both.1 right moved⟩
      exact (foldlM_preserves move ⟨before, h⟩ call).2
    · cases call
      exact h
  | releaseVoq k it toCache =>
    cases call
    exact pausedCharged_same h (releaseVoq_flags k it toCache).1
      (releaseVoq_sameIngress k it toCache)
  | releaseCache k it =>
    cases call
    exact pausedCharged_same h (releaseCache_flags k it).1 (releaseCache_sameIngress k it)
  | sendFrame dev p =>
    cases call
    exact pausedCharged_same h (sendFrame_flags dev p).1 (sendFrame_quiet dev p).sameIngress
  | registerQ dev =>
    cases call
    exact pausedCharged_same h rfl ⟨rfl, rfl, rfl⟩
  | takeDown dev limited =>
    cases call
    exact pausedCharged_same h rfl ⟨rfl, rfl, rfl⟩

theorem pausedCharged_reachable (mode : cfg.fcMode ≠ .voqDstPfc)
    (reach : State.Reachable cfg (fun s ev => ev.IngressSafe cfg s) s) (room : s.refused = false) :
    PausedCharged s := by
  induction reach with
  | initial => exact fun _ _ flag => absurd flag Bool.false_ne_true
  | step before safe call ih =>
    obtain ⟨sound, right⟩ := right_safe (fun _ _ safe => safe) before
    have open_ := refused_step sound call room
    exact pausedCharged_step sound (ih open_) (right open_) mode safe call room

/-- As long as the ingress counters are right, a paused index has packets charged to it, and the
transmission of the last of them resumes it. -/
theorem pause_released (mode : cfg.fcMode ≠ .voqDstPfc)
    (reach : State.Reachable cfg (fun s ev => ev.IngressSafe cfg s) s) (room : s.refused = false) :
    (∀ port idx, s.paused port idx = true → 0 < s.ingressBytes port idx + s.hdrmBytes port idx ∧
      ∃ it ∈ s.held, it.charged cfg port idx = true) ∧
    ∀ (k : ℕ) (it : Item n) (flowId : Option (Fin n)) (port : Fin n) (idx : ℕ) (t : State n),
      s.isFront cfg.pifo .queue k it = true → s.linkUp it.dev = true →
      it.charged cfg port idx = true →
      (∀ other ∈ s.held.eraseIdx k, other.charged cfg port idx = false) → s.paused port idx = true →
      s.dequeueAndTransmit cfg k it flowId = .ok t →
        (s.releaseIngress cfg port it.q it.packet).checkShouldResume cfg port idx = true ∧
          t.paused port idx = false ∧ s.pfcFrames ++ [(port, idx, false)] <+: t.pfcFrames ∧
          (add32 ((s.popQueue k it).bytesInQueueTotal port) cfg.pfcSize < cfg.maxBytes →
            (⟨port, 0, .queue, false, State.pfcFrame cfg⟩ : Item n) ∈ t.held) := by
  obtain ⟨sound, right⟩ := right_safe (fun _ _ safe => safe) reach
  have books := (right room).books
  have charged := pausedCharged_reachable mode reach room
  refine ⟨fun port idx flag => ⟨charged port idx flag, ?_⟩, ?_⟩
  · have some_ := charged port idx flag
    rw [books.charged] at some_
    by_contra none
    rw [tally_zero fun it member => by_contra fun passes =>
      none ⟨it, member, (Bool.not_eq_false _).mp passes⟩] at some_
    omega
  · intro k it flowId port idx t front up mine others flag call
    have first := isFront_queue front
    have known : it.packet.inDev = some port := by
      simp only [Item.charged, Bool.and_eq_true, decide_eq_true_eq] at mine
      exact mine.1.1
    have controlled : cfg.controlled it.q = true := by
      simp only [Item.charged, Bool.and_eq_true] at mine
      exact mine.1.2
    obtain ⟨-, rfl⟩ := (charged_iff known controlled port idx).mp mine
    have stored := front_stored sound first (by rw [known]; rfl)
    have test := last_resumes books (right room).fits first.found known controlled
      (tally_zero others) flag
    have popped :=
      @SameIngress.release n cfg _ _ (popQueue_sameIngress (s := s) k it) port it.q it.packet
    have again := test
    rw [← popped.resume (by rw [(releaseIngress_booked port it.q it.packet).paused,
      (releaseIngress_booked port it.q it.packet).paused]; rfl)] at again
    exact ⟨test, notify_resumes mode stored.notSkipped known controlled again
      (dequeueAndTransmit_sends front up controlled call)⟩

/-- A packet that pauses its port, and resumes it when it leaves. -/
theorem pause_released_alone : ∃ s t : State 3, s.paused 1 1 = true ∧
    0 < s.ingressBytes 1 1 + s.hdrmBytes 1 1 ∧
    t.paused 1 1 = false ∧ s.pfcFrames ++ [(1, 1, false)] <+: t.pfcFrames := by
  let arrival : Event 3 := .arrive (smallPacket .udp 999) 1 2 1 ⟨.pass, false⟩
  let it : Item 3 := ⟨2, 1, .queue, true, (smallPacket .udp 999).arrived 1⟩
  obtain ⟨s, t, ends, call, facts, -⟩ :=
    State.run_step (pressedConfig .pfc 100000) [arrival] (.transmit 1 it none)
    (fun s => decide (s.refused = false ∧ s.paused 1 1 = true ∧ s.linkUp 2 = true ∧
      s.isFront (pressedConfig .pfc 100000).pifo .queue 1 it = true ∧
      ∀ other ∈ s.held.eraseIdx 1, other.charged (pressedConfig .pfc 100000) 1 1 = false))
    (fun _ => true) (by decide +kernel)
  obtain ⟨room, flag, up, front, others⟩ := of_decide_eq_true facts
  obtain ⟨u, firstCall, nothing⟩ := bind_ok ends
  cases nothing
  have safe : arrival.IngressSafe (pressedConfig .pfc 100000) {} := by
    refine ⟨fun off => absurd off (by decide), ?_⟩
    show 0 + 1000 < 2 ^ 32
    omega
  have reach : State.Reachable (pressedConfig .pfc 100000)
      (fun s ev => ev.IngressSafe (pressedConfig .pfc 100000) s) s :=
    .step .initial safe firstCall
  obtain ⟨charged, released⟩ := pause_released (by decide) reach room
  obtain ⟨-, clear, sent, -⟩ := released 1 it none 1 1 t front up (by decide) others flag call
  exact ⟨s, t, flag, (charged 1 1 flag).1, clear, sent⟩

/-- A packet that its queue refuses stays charged; the port it came in through is paused for ever,
with none of its packets left in the switch. The CI frames that wait hide it from `DoStatistics`. -/
theorem left_paused : ∃ s : State 3,
    State.Reachable (pressedConfig .congestionIsolation 8000) (fun _ ev => ev.LinksStay) s ∧
    s.paused 1 1 = true ∧ (∀ it ∈ s.held, it.packet.inDev = none) ∧
    s.pfcFrames = [(1, 1, true)] := by
  let it : Item 3 := ⟨2, 1, .queue, true, (smallPacket .udp 3999).arrived 1⟩
  have ends : ((State.run (pressedConfig .congestionIsolation 8000) {} (List.replicate 60
      (.sendFrame 1 (smallPacket .ci 99)) ++ [.arrive (smallPacket .udp 3999) 1 2 1 ⟨.pass, false⟩,
      .arrive (smallPacket .udp 4999) 1 2 1 ⟨.pass, false⟩,
        .transmit 61 it none])).toOption.any fun s =>
        decide (s.paused 1 1 = true ∧ (∀ it ∈ s.held, it.packet.inDev = none) ∧
          s.pfcFrames = [(1, 1, true)])) =
      true := by decide +kernel
  obtain ⟨s, ends, facts⟩ := State.any_ok ends
  exact ⟨s, State.reachable_run .initial (by simp [Event.LinksStay]) ends, of_decide_eq_true facts⟩

end Buffer

end Pyrrha

import Pyrrha.Lib.Edges
import Pyrrha.Buffer.Bfc

/-!
BFC across a link. A switch counts, for each queue of an upstream switch, the buffered packets that
have asked for its pause, and reports only the first and the last of them; the reports travel in
order.
-/

namespace Pyrrha
open Lib

namespace Buffer

variable {n : ℕ} {cfg : Config n} {s t : State n}

/-- A packet that came in through `port` from queue `uq` of the upstream and carries `MetaTag` 1;
the packets of queue 0 carry none. -/
def Item.flagged (port : Fin n) (uq : ℕ) (it : Item n) : Bool :=
  decide (it.q ≠ 0) && it.packet.counterIncr && decide (it.packet.inDev = some port) &&
    decide (it.packet.upstreamQ = uq)

def State.flagged (s : State n) (port : Fin n) (uq : ℕ) : ℕ :=
  tally (fun _ => 1) (Item.flagged port uq) s.held

theorem flagged_frame {port : Fin n} {uq : ℕ} (it : Item n) (frame : it.IsFrame cfg) :
    it.flagged port uq = false := by
  simp [Item.flagged, frame.queue]

theorem flagged_eq_account (mode : cfg.fcMode = .bfc) (port : Fin n) (uq : ℕ) :
    tally (Account.pauses port uq).weight ((Account.pauses port uq).test cfg) s.held =
      s.flagged port uq := by
  refine tally_congr fun it _ => ?_
  simp only [Account.test, Item.flagged, mode, decide_true, Bool.true_and]
  grind

/-! ### The reports of a step -/

/-- Nothing is reported, and no counter comes to zero or leaves it. -/
structure Silent (s t : State n) : Prop where
  frames : t.pfcFrames = s.pfcFrames
  same : ∀ i uq, 0 < t.pauseCounter i uq ↔ 0 < s.pauseCounter i uq

/-- The counter of a queue leaves zero, and a pause is sent. -/
structure Rise (s t : State n) (port : Fin n) (uq : ℕ) : Prop where
  frames : t.pfcFrames = s.pfcFrames ++ [(port, uq, true)]
  was : s.pauseCounter port uq = 0
  rises : 0 < t.pauseCounter port uq
  others : ∀ i q, ¬(i = port ∧ q = uq) → t.pauseCounter i q = s.pauseCounter i q

/-- The counter of a queue comes back to zero, and a resume is sent. -/
structure Fall (s t : State n) (port : Fin n) (uq : ℕ) : Prop where
  frames : t.pfcFrames = s.pfcFrames ++ [(port, uq, false)]
  was : s.pauseCounter port uq = 1
  falls : t.pauseCounter port uq = 0
  others : ∀ i q, ¬(i = port ∧ q = uq) → t.pauseCounter i q = s.pauseCounter i q

theorem switchSend_pauses (cfg : Config n) (s : State n) (dev : Fin n) (q : ℕ) (counted : Bool)
    (p : Packet n) : (s.switchSend cfg dev q counted p).pfcFrames = s.pfcFrames ∧
      (s.switchSend cfg dev q counted p).pauseCounter = s.pauseCounter := by
  rcases switchSend_cases cfg s dev q counted p with refused | sent
  · rw [refused]
    exact ⟨rfl, rfl⟩
  · obtain ⟨-, after⟩ := doEnqueue_cases sent
    rw [after]
    exact ⟨rfl, rfl⟩

theorem sendPfc_pauses (cfg : Config n) (s : State n) (dev : Fin n) (idx : ℕ) (pause : Bool) :
    (s.sendPfc cfg dev idx pause).pfcFrames = s.pfcFrames ++ [(dev, idx, pause)] ∧
      (s.sendPfc cfg dev idx pause).pauseCounter = s.pauseCounter := by
  unfold State.sendPfc
  exact switchSend_pauses cfg _ dev 0 false (State.pfcFrame cfg)

theorem arriveBfc_pauses {inDev dev : Fin n} {q : ℕ} {p p' : Packet n} {bfcPause : Bool}
    (room : bfcPause = true → q ≠ 0 → s.pauseCounter inDev p.upstreamQ + 1 < 2 ^ 32)
    (call : s.arriveBfc cfg inDev dev q p bfcPause = .ok (t, p')) :
    Silent s t ∨ (bfcPause = true ∧ q ≠ 0 ∧ Rise s t inDev p.upstreamQ) := by
  unfold State.arriveBfc at call
  split at call
  · obtain ⟨rfl, -⟩ := Prod.mk.inj (Except.ok.inj call)
    exact .inl ⟨rfl, fun _ _ => Iff.rfl⟩
  · rename_i nonzero
    split at call
    · cases call
    · rename_i size found
      split at call
      · rename_i pauses
        have fits := room pauses nonzero
        have count : add32 (s.pauseCounter inDev p.upstreamQ) 1 =
            s.pauseCounter inDev p.upstreamQ + 1 :=
          Nat.mod_eq_of_lt fits
        obtain ⟨rfl, -⟩ := Prod.mk.inj (Except.ok.inj call)
        simp only [setFlow_pauseCounter, count, Nat.add_eq_right]
        split
        · rename_i zero
          have sent := sendPfc_pauses cfg
            ((s.setFlow dev p.fid (some (add32 size 1))).setPauseCounter inDev p.upstreamQ
            (s.pauseCounter inDev p.upstreamQ + 1)) inDev p.upstreamQ true
          refine .inr ⟨pauses, nonzero, ⟨sent.1, zero, ?_, fun i uq other => ?_⟩⟩
          · rw [sent.2]
            simp [State.setPauseCounter]
          · rw [sent.2]
            exact update₂_of_ne _ _ other
        · rename_i positive
          refine .inl ⟨rfl, fun i uq => ?_⟩
          simp only [State.setPauseCounter, State.setFlow, update₂_apply]
          split
          · rename_i here
            rw [here.1, here.2]
            omega
          · exact Iff.rfl
      · obtain ⟨rfl, -⟩ := Prod.mk.inj (Except.ok.inj call)
        exact .inl ⟨rfl, fun _ _ => Iff.rfl⟩

theorem departBfc_pauses {inDev dev : Fin n} {q : ℕ} {p : Packet n}
    (some_ : q ≠ 0 → p.counterIncr = true → 0 < s.pauseCounter inDev p.upstreamQ ∧
      s.pauseCounter inDev p.upstreamQ < 2 ^ 32) (call : s.departBfc cfg inDev dev q p = .ok t) :
    Silent s t ∨ (q ≠ 0 ∧ p.counterIncr = true ∧ Fall s t inDev p.upstreamQ) := by
  unfold State.departBfc at call
  split at call
  · cases call
    exact .inl ⟨rfl, fun _ _ => Iff.rfl⟩
  · rename_i nonzero
    split at call
    · cases call
    · rename_i size found
      split at call
      · rename_i incr
        obtain ⟨positive, small⟩ := some_ nonzero incr
        have count : sub32 (s.pauseCounter inDev p.upstreamQ) 1 =
            s.pauseCounter inDev p.upstreamQ - 1 := by
          unfold sub32
          omega
        obtain rfl := Except.ok.inj call
        simp only [setFlow_pauseCounter, count]
        split
        · rename_i zero
          have sent := sendPfc_pauses cfg
            ((s.setFlow dev p.fid (some (sub32 size 1))).setPauseCounter inDev p.upstreamQ
            (s.pauseCounter inDev p.upstreamQ - 1)) inDev p.upstreamQ false
          refine .inr ⟨nonzero, incr, ⟨sent.1, by omega, ?_, fun i uq other => ?_⟩⟩
          · rw [sent.2]
            simp only [State.setPauseCounter, update₂_same]
            exact zero
          · rw [sent.2]
            exact update₂_of_ne _ _ other
        · rename_i more
          refine .inl ⟨rfl, fun i uq => ?_⟩
          simp only [State.setPauseCounter, State.setFlow, update₂_apply]
          split
          · rename_i here
            rw [here.1, here.2]
            omega
          · exact Iff.rfl
      · obtain rfl := Except.ok.inj call
        exact .inl ⟨rfl, fun _ _ => Iff.rfl⟩

/-- Between two states whose pause counters and reports are the same. -/
structure SamePauses (s t : State n) : Prop where
  frames : t.pfcFrames = s.pfcFrames
  counter : t.pauseCounter = s.pauseCounter

theorem SamePauses.trans {u : State n} (first : SamePauses s t) (second : SamePauses t u) :
    SamePauses s u :=
  ⟨second.frames.trans first.frames, second.counter.trans first.counter⟩

theorem Silent.of_same (h : SamePauses s t) : Silent s t := ⟨h.frames, fun _ _ => by rw [h.counter]⟩

theorem Silent.between {u v : State n} (h : Silent t u) (before : SamePauses s t)
    (after : SamePauses u v) : Silent s v := by
  refine ⟨after.frames.trans (h.frames.trans before.frames), fun i uq => ?_⟩
  rw [after.counter, ← before.counter]
  exact h.same i uq

theorem Rise.between {u v : State n} {port : Fin n} {uq : ℕ} (h : Rise t u port uq)
    (before : SamePauses s t) (after : SamePauses u v) : Rise s v port uq where
  frames := by rw [after.frames, h.frames, before.frames]
  was := by rw [← before.counter]; exact h.was
  rises := by rw [after.counter]; exact h.rises
  others := fun i q other => by rw [after.counter, ← before.counter]; exact h.others i q other

theorem Fall.between {u v : State n} {port : Fin n} {uq : ℕ} (h : Fall t u port uq)
    (before : SamePauses s t) (after : SamePauses u v) : Fall s v port uq where
  frames := by rw [after.frames, h.frames, before.frames]
  was := by rw [← before.counter]; exact h.was
  falls := by rw [after.counter]; exact h.falls
  others := fun i q other => by rw [after.counter, ← before.counter]; exact h.others i q other

/-- BFC without PFC-controlled queues. -/
structure Config.PlainBfc (cfg : Config n) : Prop where
  mode : cfg.fcMode = .bfc
  free : ∀ q, cfg.controlled q = false

theorem Config.PlainBfc.direct (h : cfg.PlainBfc) : cfg.fcMode ≠ .floodgate := by
  rw [h.mode]
  nofun

theorem charge_pauses (plain : cfg.PlainBfc) (inDev dev : Fin n) (q : ℕ) (p : Packet n)
    (admitted : Bool) : SamePauses s (s.charge cfg inDev dev q p admitted) := by
  have same : s.chargeIngress cfg inDev q p = s := by
    rw [State.chargeIngress, plain.free, if_neg Bool.false_ne_true]
  cases admitted with
  | false =>
    rw [charge_false]
    exact ⟨rfl, rfl⟩
  | true =>
    rw [charge_true, same]
    exact ⟨rfl, rfl⟩

theorem matchFlow_pauses (dev : Fin n) (q : ℕ) (p : Packet n) :
    SamePauses s (s.matchFlow cfg dev q p) := by
  unfold State.matchFlow
  split <;> exact ⟨rfl, rfl⟩

theorem forward_pauses (plain : cfg.PlainBfc) {inDev dev : Fin n} {q : ℕ} {p : Packet n}
    {ch : Choice}
    (room : ch.bfcPause = true → q ≠ 0 → s.pauseCounter inDev p.upstreamQ + 1 < 2 ^ 32)
    (call : s.forward cfg inDev dev q p ch = .ok t) :
    Silent s t ∨ (ch.bfcPause = true ∧ q ≠ 0 ∧ Rise s t inDev p.upstreamQ) := by
  unfold State.forward State.forwardNow at call
  split at call
  · rename_i window
    exact absurd (checkVOQWin_held (by rw [window]; nofun)).1 plain.direct
  · rename_i window
    exact absurd (checkVOQWin_held (by rw [window]; nofun)).1 plain.direct
  · obtain ⟨v, passed, call⟩ := bind_ok call
    obtain ⟨w, stays, call⟩ := bind_ok call
    cases stays
    obtain ⟨buffer, -, call⟩ := bind_ok call
    cases call
    obtain ⟨u, -, arrived, rfl⟩ := passToDev_cases passed
    rw [plain.free, if_neg Bool.false_ne_true] at arrived
    unfold State.arriveMode at arrived
    rw [plain.mode] at arrived
    have before : SamePauses s (s.addBytes inDev dev q p.size) := ⟨rfl, rfl⟩
    have entered : (s.addBytes inDev dev q p.size).arriveBfc cfg inDev dev q p ch.bfcPause =
        .ok (u, p.marked cfg q ch.bfcPause) := arrived
    have sent := switchSend_pauses cfg u dev q true (p.marked cfg q ch.bfcPause)
    rcases arriveBfc_pauses (s := s.addBytes inDev dev q p.size) room entered with
      silent | ⟨pauses, nonzero, rise⟩
    · exact .inl (silent.between before ⟨sent.1, sent.2⟩)
    · exact .inr ⟨pauses, nonzero, rise.between before ⟨sent.1, sent.2⟩⟩

theorem sendToDev_pauses (plain : cfg.PlainBfc) {inDev dev : Fin n} {q : ℕ} {p : Packet n}
    {ch : Choice}
    (room : ch.bfcPause = true → q ≠ 0 → s.pauseCounter inDev p.upstreamQ + 1 < 2 ^ 32)
    (call : s.sendToDev cfg inDev dev q p ch = .ok t) :
    Silent s t ∨ (ch.bfcPause = true ∧ q ≠ 0 ∧ Rise s t inDev p.upstreamQ) := by
  unfold State.sendToDev State.sendToDevNow at call
  have matched : SamePauses s (s.matchFlow cfg dev q (p.arrived inDev)) := matchFlow_pauses _ _ _
  split at call
  · cases call
    exact .inl (Silent.of_same ⟨rfl, rfl⟩)
  · split at call
    · cases call
    · obtain ⟨admitted, test, call⟩ := bind_ok call
      cases admitted with
      | true =>
        rw [if_pos rfl] at call
        split at call
        · cases call
        · rw [← charge_true] at call
          have before := matched.trans (charge_pauses plain inDev dev q (p.arrived inDev) true)
          have entered := forward_pauses plain (fun pauses nonzero => by
            rw [before.counter]
            exact room pauses nonzero) call
          exact entered.imp (·.between before ⟨rfl, rfl⟩) fun ⟨pauses, nonzero, rise⟩ =>
            ⟨pauses, nonzero, rise.between before ⟨rfl, rfl⟩⟩
      | false =>
        rw [if_neg Bool.false_ne_true] at call
        split at call
        · rename_i off
          rw [plain.mode] at off
          cases off.1
        · cases call
          exact .inl (Silent.of_same matched)

theorem discharge_pauses (plain : cfg.PlainBfc) (inDev dev : Fin n) (q : ℕ) (p : Packet n) :
    SamePauses s (s.discharge cfg inDev dev q p) := by
  have same : s.releaseIngress cfg inDev q p = s := by
    rw [State.releaseIngress, plain.free, if_neg Bool.false_ne_true]
  simp only [State.discharge, same, State.subEgress, State.subBytes, State.subBuffering,
    State.setBuffering]
  split <;> exact ⟨rfl, rfl⟩

theorem notify_pauses (plain : cfg.PlainBfc) {dev : Fin n} {q : ℕ} {p : Packet n}
    {flowId : Option (Fin n)}
    (some_ : ∀ inDev, p.inDev.or flowId = some inDev → q ≠ 0 → p.counterIncr = true →
      0 < s.pauseCounter inDev p.upstreamQ ∧ s.pauseCounter inDev p.upstreamQ < 2 ^ 32)
    (call : s.switchNotifyDequeue cfg dev q p flowId = .ok t) :
    Silent s t ∨ ∃ inDev, p.inDev.or flowId = some inDev ∧ q ≠ 0 ∧ p.counterIncr = true ∧
      Fall s t inDev p.upstreamQ := by
  unfold State.switchNotifyDequeue at call
  split at call
  · cases call
    exact .inl (Silent.of_same ⟨rfl, rfl⟩)
  · cases call
    exact .inl (Silent.of_same ⟨rfl, rfl⟩)
  · cases call
    exact .inl (Silent.of_same ⟨rfl, rfl⟩)
  · split at call
    · cases call
    · rename_i inDev known
      obtain ⟨u, removed, call⟩ := bind_ok call
      obtain ⟨-, -, rfl⟩ := removeFromEgressAdmission_ok removed
      have before : SamePauses s (s.discharge cfg inDev dev q p) :=
        discharge_pauses plain inDev dev q p
      dsimp only at call
      rw [plain.free, if_neg Bool.false_ne_true] at call
      have departed : (s.discharge cfg inDev dev q p).departMode cfg inDev dev q p = .ok t := call
      unfold State.departMode at departed
      rw [plain.mode] at departed
      have counted := departBfc_pauses (fun nonzero incr => by
        rw [before.counter]
        exact some_ inDev known nonzero incr) departed
      exact counted.imp (·.between before ⟨rfl, rfl⟩) fun ⟨nonzero, incr, fall⟩ =>
        ⟨inDev, known, nonzero, incr, fall.between before ⟨rfl, rfl⟩⟩

theorem transmit_pauses (plain : cfg.PlainBfc) (sound : Sound cfg s) {k : ℕ} {it : Item n}
    {flowId : Option (Fin n)}
    (exact_ : ∀ i uq, s.pauseCounter i uq = s.flagged i uq ∧ s.flagged i uq < 2 ^ 32)
    (call : s.dequeueAndTransmit cfg k it flowId = .ok t) :
    Silent s t ∨ ∃ inDev, AtFront s k it ∧ it.packet.inDev = some inDev ∧ it.q ≠ 0 ∧
    it.packet.counterIncr = true ∧ Fall s t inDev it.packet.upstreamQ := by
  rcases dequeueAndTransmit_cases call with rfl | ⟨front, -, -, notified⟩
  · exact .inl (Silent.of_same ⟨rfl, rfl⟩)
  · have popped : SamePauses s (s.popQueue k it) := ⟨rfl, rfl⟩
    have member := List.mem_of_getElem? front.found
    have known : ∀ inDev, it.packet.inDev.or flowId = some inDev → it.q ≠ 0 →
        it.packet.inDev = some inDev := by
      intro inDev found nonzero
      rcases sound.items it member with frame | stored
      · exact absurd frame.queue nonzero
      · obtain ⟨port, arrived⟩ := Option.isSome_iff_exists.mp stored.inDev
        rw [arrived, Option.some_or] at found
        rw [arrived, found]
    have counted := notify_pauses plain (fun inDev found nonzero incr => by
      obtain ⟨same, small⟩ := exact_ inDev it.packet.upstreamQ
      have one : 1 ≤ s.flagged inDev it.packet.upstreamQ :=
        le_tally (w := fun _ => 1) member
          (by simp [Item.flagged, nonzero, incr, known inDev found nonzero])
      rw [popped.counter, same]
      omega) notified
    rcases counted with silent | ⟨inDev, found, nonzero, incr, fall⟩
    · exact .inl (silent.between popped ⟨rfl, rfl⟩)
    · exact .inr ⟨inDev, front, known inDev found nonzero, nonzero, incr,
        fall.between popped ⟨rfl, rfl⟩⟩

/-! ### Runs of the switch -/

/-- Queue 0 of `dev` has room for a PFC frame. -/
def State.RoomForPfc (cfg : Config n) (s : State n) (dev : Fin n) : Prop :=
  add32 (s.bytesInQueueTotal dev) cfg.pfcSize < cfg.maxBytes

instance (dev : Fin n) : Decidable (s.RoomForPfc cfg dev) := inferInstanceAs (Decidable (_ < _))

/-- What an event needs: 32 bits count the flagged packets, no link is lost, and a pause or resume
frame finds room in its port. -/
def Event.BfcFits (cfg : Config n) (s : State n) : Event n → Prop
  | .arrive p inDev _ q ch =>
      ch.bfcPause = true → q ≠ 0 → s.flagged inDev p.upstreamQ + 1 < 2 ^ 32 ∧
    (s.pauseCounter inDev p.upstreamQ = 0 → s.RoomForPfc cfg inDev)
  | .transmit k it _ => AtFront s k it → it.q ≠ 0 → it.packet.counterIncr = true → ∀ inDev,
    it.packet.inDev = some inDev → s.pauseCounter inDev it.packet.upstreamQ = 1 →
    (s.popQueue k it).RoomForPfc cfg inDev
  | .takeDown _ _ => False
  | _ => True

theorem flagged_step (plain : cfg.PlainBfc) (sound : Sound cfg s) {ev : Event n}
    (fits : ev.BfcFits cfg s)
    (call : s.step cfg ev = .ok t) (small : ∀ i uq, s.flagged i uq < 2 ^ 32) (i : Fin n) (uq : ℕ) :
    t.flagged i uq < 2 ^ 32 := by
  cases ev with
  | arrive p inDev dev q ch =>
    rcases held_sendToDev plain.direct call with same | ⟨l, same, held⟩
    · rw [State.flagged, tally_withFrames same flagged_frame]
      exact small i uq
    · rw [State.flagged, held, tally_concat, tally_withFrames same flagged_frame]
      split
      · rename_i enters
        simp only [Item.flagged, Packet.entry, marked_inDev, marked_upstreamQ, Bool.and_eq_true,
          decide_eq_true_eq] at enters
        obtain ⟨⟨⟨nonzero, incr⟩, arrived⟩, upstream⟩ := enters
        rw [marked_counterIncr q ch.bfcPause _ plain.mode (of_decide_eq_true nonzero)] at incr
        have here : inDev = i := Option.some.inj arrived
        have queue : p.upstreamQ = uq := upstream
        subst here queue
        exact (fits incr (of_decide_eq_true nonzero)).1
      · exact small i uq
  | transmit k it flowId =>
    rcases held_transmit sound call with rfl | ⟨front, same⟩
    · exact small i uq
    · have removed :=
        tally_eraseIdx (w := fun _ => 1) (p := Item.flagged i uq) (isFront_queue front).found
      have before := small i uq
      rw [State.flagged, tally_withFrames same flagged_frame]
      unfold State.flagged at before
      omega
  | takeDown dev limited => exact fits.elim
  | _ =>
    have same := (held_other sound plain.mode (by simp) (by simp) (by simp) call).1
    rw [State.flagged, same]
    exact small i uq

theorem flagged_reachable (plain : cfg.PlainBfc)
    (reach : State.Reachable cfg (fun s ev => ev.BfcFits cfg s) s) :
    Sound cfg s ∧ ∀ i uq, s.flagged i uq < 2 ^ 32 := by
  induction reach with
  | initial => exact ⟨sound_initial, fun _ _ => Nat.two_pow_pos 32⟩
  | step _ fits call ih => exact ⟨sound_step ih.1 call, flagged_step plain ih.1 fits call ih.2⟩

theorem pauses_exact (plain : cfg.PlainBfc)
    (reach : State.Reachable cfg (fun s ev => ev.BfcFits cfg s) s)
    (room : s.refused = false) (i : Fin n) (uq : ℕ) :
    s.pauseCounter i uq = s.flagged i uq ∧ s.flagged i uq < 2 ^ 32 := by
  have bound := (flagged_reachable plain reach).2 i uq
  have kept : (Account.pauses i uq).Kept cfg s := by
    refine (kept_reachable (fun u ev sound fits => ?_) reach).2 room
    cases ev with
    | transmit k it flowId =>
      exact ⟨fun front own => direct_noSyn sound plain.direct
        (List.mem_of_getElem? front.found) own, trivial, fun _ _ => trivial⟩
    | takeDown dev limited => exact fits.elim
    | _ => exact ⟨trivial, trivial, trivial⟩
  have total := keeps_exact kept (by rw [flagged_eq_account plain.mode]; exact bound)
  rw [flagged_eq_account plain.mode] at total
  exact ⟨total, bound⟩

/-! ### The upstream switch -/

/-- `SwitchReceivePFC` without `ctrl_all_egress`, on `m_paused` of the device; `none` is the assert
of `Resume`. -/
def switchReceivePFC (paused : ℕ → Bool) (frame : ℕ × Bool) : Option (ℕ → Bool) :=
  if frame.2 then some (Function.update paused frame.1 true)
  else if paused frame.1 then some (Function.update paused frame.1 false)
  else none

theorem switchReceivePFC_eq (paused : ℕ → Bool) (frame : ℕ × Bool) :
    switchReceivePFC paused frame = applyReport paused frame := by
  obtain ⟨q, pause⟩ := frame
  unfold switchReceivePFC applyReport
  cases pause <;> cases paused q <;> simp

/-- A switch, the PFC frames of one of its ports that are on their way to the switch at the other
end, oldest first, and `m_paused` of the device there. -/
structure Facing (n : ℕ) where
  switch : State n
  inFlight : List (ℕ × Bool)
  paused : ℕ → Bool

/-- The state in which a step hands out a PFC frame. -/
def Event.sender (s : State n) : Event n → State n
  | .transmit k it _ => s.popQueue k it
  | _ => s

/-- The PFC frames of a step that queue 0 of `port` takes. -/
def framesSent (cfg : Config n) (s t : State n) (ev : Event n) (port : Fin n) : List (ℕ × Bool) :=
  if (ev.sender s).RoomForPfc cfg port then
    (t.pfcFrames.drop s.pfcFrames.length).filterMap fun frame =>
      if frame.1 = port then some frame.2 else none
  else []

/-- The runs of a switch and the upstream of `port`, in which the frames of the port travel in
order. -/
inductive Across (cfg : Config n) (port : Fin n) (allowed : State n → Event n → Prop) :
    Facing n → Prop where
  | initial : Across cfg port allowed ⟨{}, [], fun _ => false⟩
  | local {f : Facing n} {t : State n} {ev : Event n} : Across cfg port allowed f →
      allowed f.switch ev → f.switch.step cfg ev = .ok t →
      Across cfg port allowed ⟨t, f.inFlight ++ framesSent cfg f.switch t ev port, f.paused⟩
  | deliver {f : Facing n} {frame : ℕ × Bool} {rest : List (ℕ × Bool)} {paused : ℕ → Bool} :
      Across cfg port allowed f → f.inFlight = frame :: rest → switchReceivePFC f.paused frame =
        some paused →
      Across cfg port allowed ⟨f.switch, rest, paused⟩

theorem Across.reachable {port : Fin n} {allowed : State n → Event n → Prop} {f : Facing n}
    (h : Across cfg port allowed f) : State.Reachable cfg allowed f.switch := by
  induction h with
  | initial => exact .initial
  | «local» _ ok call ih => exact .step ih ok call
  | deliver _ _ _ ih => exact ih

theorem framesSent_none {ev : Event n} {port : Fin n} (same : t.pfcFrames = s.pfcFrames) :
    framesSent cfg s t ev port = [] := by
  rw [framesSent, same, List.drop_length]
  split <;> rfl

theorem framesSent_other {ev : Event n} {port i : Fin n} {uq : ℕ} {pause : Bool}
    (one : t.pfcFrames = s.pfcFrames ++ [(i, uq, pause)]) (other : i ≠ port) :
    framesSent cfg s t ev port = [] := by
  rw [framesSent, one, List.drop_left]
  simp [other]

theorem framesSent_here {ev : Event n} {port : Fin n} {uq : ℕ} {pause : Bool}
    (one : t.pfcFrames = s.pfcFrames ++ [(port, uq, pause)])
    (room : (ev.sender s).RoomForPfc cfg port) : framesSent cfg s t ev port = [(uq, pause)] := by
  rw [framesSent, one, List.drop_left, if_pos room]
  simp

theorem follows_silent {port : Fin n} {f : Facing n} {ev : Event n} (silent : Silent f.switch t)
    (h : Follows f.paused f.inFlight (f.switch.pauseCounter port)) :
    Follows f.paused (f.inFlight ++ framesSent cfg f.switch t ev port) (t.pauseCounter port) := by
  rw [framesSent_none silent.frames, List.append_nil]
  exact follows_same h (silent.same port)

theorem follows_local (plain : cfg.PlainBfc) {port : Fin n} {f : Facing n} {ev : Event n}
    (reach : State.Reachable cfg (fun s ev => ev.BfcFits cfg s) f.switch)
    (fits : ev.BfcFits cfg f.switch)
    (call : f.switch.step cfg ev = .ok t) (room : f.switch.refused = false)
    (h : Follows f.paused f.inFlight (f.switch.pauseCounter port)) :
    Follows f.paused (f.inFlight ++ framesSent cfg f.switch t ev port) (t.pauseCounter port) := by
  have sound := (flagged_reachable plain reach).1
  have exact_ := pauses_exact plain reach room
  cases ev with
  | arrive p inDev dev q ch =>
    have fit : ch.bfcPause = true → q ≠ 0 → f.switch.pauseCounter inDev p.upstreamQ + 1 <
        2 ^ 32 := by
      intro pauses nonzero
      rw [(exact_ inDev p.upstreamQ).1]
      exact (fits pauses nonzero).1
    rcases sendToDev_pauses plain fit call with silent | ⟨pauses, nonzero, rise⟩
    · exact follows_silent silent h
    · by_cases here : inDev = port
      · subst here
        rw [framesSent_here rise.frames ((fits pauses nonzero).2 rise.was)]
        refine follows_rise h rise.rises fun uq other => ?_
        rw [rise.others inDev uq fun both => other both.2]
      · rw [framesSent_other rise.frames here, List.append_nil]
        refine follows_same h fun uq => ?_
        rw [rise.others port uq fun both => here both.1.symm]
  | transmit k it flowId =>
    rcases transmit_pauses plain sound exact_ call with
      silent | ⟨inDev, front, known, nonzero, incr, fall⟩
    · exact follows_silent silent h
    · have was := fall.was
      by_cases here : inDev = port
      · subst here
        rw [framesSent_here fall.frames (fits front nonzero incr inDev known was)]
        refine follows_fall h (by omega) fall.falls fun uq other => ?_
        rw [fall.others inDev uq fun both => other both.2]
      · rw [framesSent_other fall.frames here, List.append_nil]
        refine follows_same h fun uq => ?_
        rw [fall.others port uq fun both => here both.1.symm]
  | takeDown dev limited => exact fits.elim
  | _ =>
    obtain ⟨-, frames, counters, -⟩ :=
      held_other sound plain.mode (by simp) (by simp) (by simp) call
    exact follows_silent (Silent.of_same ⟨frames, counters⟩) h

theorem across_follows (plain : cfg.PlainBfc) {port : Fin n} {f : Facing n}
    (across : Across cfg port (fun s ev => ev.BfcFits cfg s) f) (room : f.switch.refused = false) :
    Follows f.paused f.inFlight (f.switch.pauseCounter port) := by
  induction across with
  | initial => exact follows_initial
  | «local» before fits call ih =>
    have earlier := refused_step (flagged_reachable plain before.reachable).1 call room
    exact follows_local plain before.reachable fits call earlier (ih earlier)
  | deliver before oldest delivered ih =>
    have follows := ih room
    rw [oldest] at follows
    obtain ⟨flags, applied, rest⟩ := follows_deliver follows
    rw [switchReceivePFC_eq, applied] at delivered
    rw [← Option.some.inj delivered]
    exact rest

/-- The pause counters of a switch are the flagged packets it buffers, can lose each of them, and
once the frames on their way have arrived (and none fails the assert of `Resume`) the upstream has
paused exactly the queues with flagged packets; in runs in which no queue refuses a packet or a PFC
frame, no link is lost, and 32 bits count the flagged packets. -/
theorem pauses_coherent (plain : cfg.PlainBfc) {port : Fin n} {f : Facing n}
    (across : Across cfg port (fun s ev => ev.BfcFits cfg s) f) (room : f.switch.refused = false) :
    (∀ i uq, f.switch.pauseCounter i uq = tally (fun _ => 1) (Item.flagged i uq) f.switch.held) ∧
      (∀ it ∈ f.switch.held, ∀ i uq, it.flagged i uq = true → 0 < f.switch.pauseCounter i uq) ∧
      ∃ final, f.inFlight.foldlM switchReceivePFC f.paused = some final ∧
        ∀ uq, final uq = true ↔ 0 < f.switch.pauseCounter port uq := by
  have exact_ := pauses_exact plain across.reachable room
  refine ⟨fun i uq => (exact_ i uq).1, fun it member i uq flagged => ?_, ?_⟩
  · have one : 1 ≤ f.switch.flagged i uq := le_tally (w := fun _ => 1) member flagged
    rw [(exact_ i uq).1]
    exact one
  · have same : switchReceivePFC = @applyReport ℕ _ := by
      funext paused frame
      exact switchReceivePFC_eq paused frame
    rw [same]
    exact across_follows plain across room

/-- BFC with room for `room` bytes at each port. -/
def bfcConfig (room : Fin 100001) : Config 3 :=
  { smallConfig .bfc with
    maxBytes := room
    maxBytes_le := room_le room }

theorem bfcConfig_plain (room : Fin 100001) : (bfcConfig room).PlainBfc :=
  ⟨rfl, fun _ => Bool.and_false _⟩

def flaggedPacket (size : Fin 10000) : Packet 3 := { smallPacket .udp size with upstreamQ := 3 }

/-- A packet of queue 3 of the upstream of port 1 asks for its pause on the way to port 2. -/
def flaggedArrival (size : Fin 10000) : Event 3 := .arrive (flaggedPacket size) 1 2 1 ⟨.pass, true⟩

theorem flaggedArrival_across (room : Fin 100001) (size : Fin 10000) (roomy : 64 < room.val)
    {s : State 3} (call : State.step (bfcConfig room) {} (flaggedArrival size) = .ok s)
    (frames : s.pfcFrames = [(1, 3, true)]) :
    Across (bfcConfig room) 1 (fun s ev => ev.BfcFits (bfcConfig room) s)
      ⟨s, [(3, true)], fun _ => false⟩ := by
  have inPort : State.RoomForPfc (bfcConfig room) {} 1 := roomy
  have fits : (flaggedArrival size).BfcFits (bfcConfig room) {} :=
    fun _ _ => ⟨show 0 + 1 < 2 ^ 32 by omega, fun _ => inPort⟩
  have sent : framesSent (bfcConfig room) {} s (flaggedArrival size) 1 = [(3, true)] :=
    framesSent_here frames inPort
  have across : Across (bfcConfig room) 1 (fun s ev => ev.BfcFits (bfcConfig room) s)
      ⟨s, [] ++ framesSent (bfcConfig room) {} s (flaggedArrival size) 1, fun _ => false⟩ :=
        .local .initial fits call
  rw [sent] at across
  exact across

/-- A packet has asked for the pause of queue 3, and the frame is on its way. -/
theorem pauses_coherent_one : ∃ f : Facing 3, f.inFlight = [(3, true)] ∧
    f.switch.pauseCounter 1 3 = 1 ∧
    ∃ final, f.inFlight.foldlM switchReceivePFC f.paused = some final ∧
      ∀ uq, final uq = true ↔ 0 < f.switch.pauseCounter 1 uq := by
  have ends : ((State.step (bfcConfig 100000) {} (flaggedArrival 999)).toOption.any fun t =>
      decide (t.pfcFrames = [(1, 3, true)] ∧ t.refused = false ∧ t.pauseCounter 1 3 = 1)) =
        true := by decide +kernel
  obtain ⟨s, call, facts⟩ := State.any_ok ends
  obtain ⟨frames, room, one⟩ := of_decide_eq_true facts
  have across := flaggedArrival_across 100000 999 (by decide) call frames
  exact ⟨_, rfl, one, (pauses_coherent (bfcConfig_plain 100000) across room).2.2⟩

/-- The second packet asks for the pause too, and is then refused by its queue. Once the first has
left, nothing is buffered and the upstream stays paused. -/
theorem refused_paused : ∃ f : Facing 3, (bfcConfig 100).PlainBfc ∧
    Across (bfcConfig 100) 1 (fun s ev => ev.BfcFits (bfcConfig 100) s) f ∧
    (∀ i uq, f.switch.flagged i uq = 0) ∧ f.switch.pauseCounter 1 3 = 1 ∧
    f.inFlight = [(3, true)] := by
  let it : Item 3 := ⟨2, 1, .queue, true,
    { (smallPacket .udp 59).arrived 1 with upstreamQ := 3, counterIncr := true }⟩
  have ends : ((State.step (bfcConfig 100) {} (flaggedArrival 59)).toOption.any fun s =>
      decide (s.pfcFrames = [(1, 3, true)] ∧ s.flagged 1 3 = 1 ∧ s.pauseCounter 1 3 = 1) &&
      (State.step (bfcConfig 100) s (flaggedArrival 49)).toOption.any fun t =>
      decide (t.pfcFrames = [(1, 3, true)] ∧ t.pauseCounter 1 3 = 2) &&
      (State.step (bfcConfig 100) t (.transmit 1 it none)).toOption.any fun u =>
      decide (u.pfcFrames = [(1, 3, true)] ∧ u.pauseCounter 1 3 = 1 ∧
        u.held.all fun x => decide (x.q = 0))) = true := by
    decide +kernel
  obtain ⟨s, first, tests⟩ := State.any_ok ends
  rw [Bool.and_eq_true] at tests
  obtain ⟨frames, flagged, one⟩ := of_decide_eq_true tests.1
  obtain ⟨t, second, tests⟩ := State.any_ok tests.2
  rw [Bool.and_eq_true] at tests
  obtain ⟨frames', two⟩ := of_decide_eq_true tests.1
  obtain ⟨u, third, facts⟩ := State.any_ok tests.2
  obtain ⟨frames'', still, rest⟩ := of_decide_eq_true facts
  have across := flaggedArrival_across 100 59 (by decide) first frames
  have fits : (flaggedArrival 49).BfcFits (bfcConfig 100) s := by
    refine fun _ _ => ⟨?_, fun zero => ?_⟩
    · show s.flagged 1 3 + 1 < 2 ^ 32
      omega
    · have same : s.pauseCounter 1 3 = 0 := zero
      omega
  have across' := across.local fits second
  rw [framesSent_none (frames'.trans frames.symm), List.append_nil] at across'
  have fits' : (Event.transmit 1 it none : Event 3).BfcFits (bfcConfig 100) t := by
    intro _ _ _ inDev known last
    have port : inDev = 1 := (Option.some.inj known).symm
    have counter : t.pauseCounter 1 3 = 1 := port ▸ last
    omega
  have across'' := across'.local fits' third
  rw [framesSent_none (frames''.trans frames'.symm), List.append_nil] at across''
  refine ⟨_, bfcConfig_plain 100, across'', fun i uq => tally_zero fun x member => ?_, still, rfl⟩
  have zero := of_decide_eq_true (List.all_eq_true.mp rest x member)
  simp [Item.flagged, zero]

end Buffer

end Pyrrha

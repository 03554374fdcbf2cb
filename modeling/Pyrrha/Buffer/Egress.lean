import Pyrrha.Buffer.Books
import Pyrrha.Buffer.Failure

/-! What `egress_bytes`, `m_bytes` and the byte counters of `BEgressQueue` say where nothing is held
back. -/

namespace Pyrrha
open Lib

namespace Buffer

variable {n : ℕ} {cfg : Config n} {s t : State n}

/-- The packets in queue `q` of a device other than PFC and CI frames. -/
def Item.data (dev : Fin n) (q : ℕ) (it : Item n) : Bool :=
  it.queued dev q && decide (it.packet.l3Prot ≠ .pfc) && decide (it.packet.l3Prot ≠ .ci)

/-- The ledgers of the egress agree with the bytes in the queues. -/
structure EgressExact (s : State n) : Prop where
  egress : ∀ dev q, s.egressBytes dev q = tally Item.size (Item.data dev q) s.held
  bytes : ∀ inDev dev q, s.bytes inDev dev q =
    tally Item.size (fun it => it.data dev q && decide (it.packet.inDev = some inDev)) s.held
  inQueue : ∀ dev q, s.bytesInQueue dev q = tally Item.size (Item.queued dev q) s.held
  total : ∀ dev, s.bytesInQueueTotal dev = tally Item.size (Item.queuedOn dev) s.held
  total_sum : ∀ dev, s.bytesInQueueTotal dev =
    ((List.range (s.nQueue dev)).map (s.bytesInQueue dev)).sum

/-- What is taken off the counters of the egress when `it` leaves its queue. -/
structure EgressFits (s : State n) (it : Item n) : Prop where
  inQueue : it.size ≤ s.bytesInQueue it.dev it.q
  total : it.size ≤ s.bytesInQueueTotal it.dev
  egress : it.packet.inDev.isSome = true → it.size ≤ s.egressBytes it.dev it.q
  bytes : ∀ inDev, it.packet.inDev = some inDev → it.size ≤ s.bytes inDev it.dev it.q

/-- The `fc_mode`s that transmit what they admit. -/
def Config.Direct (cfg : Config n) : Prop :=
  cfg.fcMode = .pfc ∨ cfg.fcMode = .bfc ∨ cfg.fcMode = .voqDstPfc ∨
    cfg.fcMode = .congestionIsolation

theorem Config.Direct.not_floodgate (h : cfg.Direct) : cfg.fcMode ≠ .floodgate := by
  rcases h with mode | mode | mode | mode <;> rw [mode] <;> nofun

/-- Where nothing is held back, an admitted packet is in its queue and `m_bytes` knows it. -/
theorem direct_stored (direct : cfg.fcMode ≠ .floodgate) {it : Item n} (stored : Stored cfg s it) :
    it.place = .queue ∧ it.counted = true := by
  have counted : it.counted = true := by
    by_contra uncounted
    exact direct (stored.counted (Bool.eq_false_of_not_eq_true uncounted))
  refine ⟨?_, counted⟩
  by_contra away
  rw [stored.place away] at counted
  cases counted

theorem direct_noSyn (h : Sound cfg s) (direct : cfg.fcMode ≠ .floodgate) {it : Item n}
    (member : it ∈ s.held) (own : it.packet.inDev = none) : it.packet.l3Prot ≠ .switchPsn := by
  rcases h.items it member with frame | stored
  · rcases frame.prot with pfc | ci | ⟨mode, -⟩
    · rw [pfc]
      nofun
    · rw [ci]
      nofun
    · exact absurd mode direct
  · have arrived := stored.inDev
    rw [own] at arrived
    cases arrived

theorem egress_eq_data (h : Sound cfg s) (direct : cfg.fcMode ≠ .floodgate) (dev : Fin n) (q : ℕ) :
    tally Item.size ((Account.egress dev q).test cfg) s.held =
      tally Item.size (Item.data dev q) s.held := by
  refine tally_congr fun it member => ?_
  rcases h.items it member with frame | stored
  · rw [Account.test_frame _ frame]
    rcases frame.prot with pfc | ci | ⟨mode, -⟩
    · simp [Item.data, pfc]
    · simp [Item.data, ci]
    · exact absurd mode direct
  · have kinds := stored.notSkipped
    simp only [Skipped, not_or] at kinds
    simp only [Account.test, Item.data, Item.queued, stored.inDev, (direct_stored direct stored).1]
    grind

theorem bytes_eq_data (h : Sound cfg s) (direct : cfg.fcMode ≠ .floodgate)
    (inDev dev : Fin n) (q : ℕ) : tally Item.size ((Account.bytes inDev dev q).test cfg) s.held =
      tally Item.size (fun it => it.data dev q && decide (it.packet.inDev = some inDev))
        s.held := by
  refine tally_congr fun it member => ?_
  rcases h.items it member with frame | stored
  · rw [Account.test_frame _ frame]
    simp [frame.inDev]
  · have kinds := stored.notSkipped
    simp only [Skipped, not_or] at kinds
    simp only [Account.test, Item.data, Item.queued, (direct_stored direct stored)]
    grind

theorem data_le_total (h : Sound cfg s) (dev : Fin n) (q : ℕ) :
    tally Item.size (Item.data dev q) s.held ≤ 2 ^ 31 := by
  refine le_trans ?_ (h.queued.le dev)
  rw [h.queued.total_eq]
  refine tally_mono fun it _ passes => ?_
  simp only [Item.data, Item.queued, Bool.and_eq_true, decide_eq_true_eq] at passes
  simp [Item.queuedOn, passes.1.1.1.1, passes.1.1.1.2]

theorem total_eq_sum (h : Sound cfg s) (dev : Fin n) :
    s.bytesInQueueTotal dev = ((List.range (s.nQueue dev)).map (s.bytesInQueue dev)).sum := by
  have rows : (List.range (s.nQueue dev)).map (s.bytesInQueue dev) =
      (List.range (s.nQueue dev)).map fun q =>
      tally Item.size (fun it => it.queuedOn dev && decide (it.q = q)) s.held := by
    refine List.map_congr_left fun q _ => ?_
    rw [h.queued.inQueue_eq]
    rfl
  rw [rows, tally_sum_keys Item.q List.nodup_range, h.queued.total_eq]
  refine tally_congr fun it member => ?_
  cases on : it.queuedOn dev with
  | false => rfl
  | true =>
    have here : it.dev = dev := by
      simp only [Item.queuedOn, Bool.and_eq_true, decide_eq_true_eq] at on
      exact on.2
    have range : it.q < s.nQueue dev := by
      rcases h.items it member with frame | stored
      · rw [frame.queue]
        exact h.nQueue dev
      · rw [← here]
        exact stored.range
    simp [range]

theorem egress_exact (h : Sound cfg s) (direct : cfg.fcMode ≠ .floodgate)
    (egress : ∀ dev q, (Account.egress dev q).Kept cfg s)
    (bytes : ∀ inDev dev q, (Account.bytes inDev dev q).Kept cfg s) : EgressExact s where
  egress := fun dev q => by
    have small := data_le_total h dev q
    rw [← egress_eq_data h direct] at small ⊢
    exact keeps_exact (egress dev q) (lt_of_le_of_lt small (by decide))
  bytes := fun inDev dev q => by
    have small := data_le_total h dev q
    rw [← bytes_eq_data h direct]
    refine keeps_exact (bytes inDev dev q) (lt_of_le_of_lt (le_trans ?_ small) (by decide))
    rw [bytes_eq_data h direct]
    exact tally_mono fun it _ passes => (Bool.and_eq_true _ _ ▸ passes).1
  inQueue := h.queued.inQueue_eq
  total := h.queued.total_eq
  total_sum := total_eq_sum h

theorem egress_fits (h : Sound cfg s) (direct : cfg.fcMode ≠ .floodgate) (exact_ : EgressExact s)
    {it : Item n} (member : it ∈ s.held) : EgressFits s it := by
  have place : it.place = .queue := by
    rcases h.items it member with frame | stored
    · exact frame.place
    · exact (direct_stored direct stored).1
  have queued : it.queued it.dev it.q = true := by simp [Item.queued, place]
  have data : it.packet.inDev.isSome = true → it.data it.dev it.q = true := by
    intro arrived
    rcases h.items it member with frame | stored
    · rw [frame.inDev] at arrived
      cases arrived
    · have kinds := stored.notSkipped
      simp only [Skipped, not_or] at kinds
      simp [Item.data, queued, kinds]
  refine ⟨?_, ?_, fun arrived => ?_, fun inDev known => ?_⟩
  · rw [exact_.inQueue]
    exact le_tally member queued
  · rw [exact_.total]
    exact le_tally member (by simp [Item.queuedOn, place])
  · rw [exact_.egress]
    exact le_tally member (data arrived)
  · rw [exact_.bytes]
    exact le_tally member (by simp [data (by rw [known]; rfl), known])

/-! ### Runs -/

namespace Event

/-- No link is taken down. -/
def LinksStay : Event n → Prop
  | .takeDown _ _ => False
  | _ => True

/-- What the step takes off the ledgers of the egress is in them; a round is looked at move by
move. -/
def NoWrap (cfg : Config n) (s : State n) : Event n → Prop
  | .transmit k it _ => AtFront s k it → EgressFits s it
  | .hierRR moves =>
      ∀ before m after u, moves = before ++ m :: after → s.doHierQRR cfg before = .ok u →
    AtFront u m.1 m.2.1 → EgressFits u m.2.1
  | _ => True

end Event

theorem direct_kept (direct : cfg.fcMode ≠ .floodgate) {a : Account n}
    (entered : ∀ it, it.counted = true → a.Settles cfg it)
    (reach : State.Reachable cfg (fun _ ev => ev.LinksStay) s) : Sound cfg s ∧
    (s.refused = false → a.Kept cfg s) := by
  refine kept_reachable (fun s ev sound stays => ?_) reach
  cases ev with
  | transmit k it flowId =>
    refine ⟨fun front own => direct_noSyn sound direct (List.mem_of_getElem? front.found) own,
      trivial, fun front arrived => entered it ?_⟩
    · exact (direct_stored direct (front_stored sound front arrived)).2
  | takeDown dev limited => exact stays.elim
  | _ => exact ⟨trivial, trivial, trivial⟩

theorem direct_sound (direct : cfg.fcMode ≠ .floodgate)
    (reach : State.Reachable cfg (fun _ ev => ev.LinksStay) s) : Sound cfg s :=
  (direct_kept (a := .voq) direct (fun _ _ => trivial) reach).1

theorem direct_exact (direct : cfg.fcMode ≠ .floodgate)
    (reach : State.Reachable cfg (fun _ ev => ev.LinksStay) s)
    (room : s.refused = false) : EgressExact s :=
  egress_exact (direct_sound direct reach) direct
    (fun dev q => (direct_kept (a := .egress dev q) direct (fun _ _ => trivial) reach).2 room)
    (fun inDev dev q =>
      (direct_kept (a := .bytes inDev dev q) direct (fun _ counted => counted) reach).2 room)

theorem egress_noWrap (direct : cfg.fcMode ≠ .floodgate)
    (reach : State.Reachable cfg (fun _ ev => ev.LinksStay) s)
    (room : s.refused = false) (ev : Event n) : ev.NoWrap cfg s := by
  cases ev with
  | transmit k it flowId =>
    intro front
    exact egress_fits (direct_sound direct reach) direct (direct_exact direct reach room)
      (List.mem_of_getElem? front.found)
  | hierRR moves =>
    intro before m after u _ first front
    -- the moves before `m` are a round of their own
    have reach' : State.Reachable cfg (fun _ ev => ev.LinksStay) u :=
      .step reach (show (Event.hierRR before : Event n).LinksStay from trivial) first
    have room' : u.refused = false := (doHierQRR_refused first).trans room
    exact egress_fits (direct_sound direct reach') direct (direct_exact direct reach' room')
      (List.mem_of_getElem? front.found)
  | _ => trivial

theorem hierMove_room (h : Sound cfg s) {k : ℕ} {it : Item n} {nextQ : ℕ} {inDev : Fin n}
    (front : AtFront s k it) :
    (((s.popQueue k it).subEgress it.dev it.q it.size).subBytes inDev it.dev it.q it.size).doEnqueue
      cfg it.dev nextQ true it.packet ≠ none := by
  have pos := size_pos it
  have limit := h.queued.le it.dev
  have inTotal : it.size ≤ s.bytesInQueueTotal it.dev := by
    rw [h.queued.total_eq]
    exact le_tally (List.mem_of_getElem? front.found) (by simp [Item.queuedOn, front.place])
  have bound := h.queued.bound it.dev
  have same : add32 (sub32 (s.bytesInQueueTotal it.dev) it.size) it.size =
      s.bytesInQueueTotal it.dev := by
    unfold add32 sub32
    omega
  have total : (((s.popQueue k it).subEgress it.dev it.q it.size).subBytes inDev it.dev it.q
      it.size).bytesInQueueTotal it.dev = sub32 (s.bytesInQueueTotal it.dev) it.size :=
        Function.update_self ..
  unfold State.doEnqueue
  rw [total, if_pos]
  · intro h
    cases h
  · rw [show it.packet.size = it.size from rfl, same]
    omega

/-- A failing round fails in one of its moves, after a round that does not. -/
theorem doHierQRR_error {I : State n → Prop} {moves : List (State.Move n)} {e : Assert}
    (step : cfg.fcMode = .congestionIsolation → ∀ u v k it nextQ, I u →
      u.hierMove cfg k it nextQ = .ok v → I v)
    (start : I s) (call : s.doHierQRR cfg moves = .error e) : cfg.fcMode = .congestionIsolation ∧
      ∃ (m : State.Move n) (u : State n), I u ∧ u.hierMove cfg m.1 m.2.1 m.2.2 = .error e := by
  unfold State.doHierQRR at call
  split at call
  · rename_i mode
    obtain ⟨m, -, u, before, failed⟩ :=
      foldlM_error (fun m _ u v before moved =>
        step mode u v m.1 m.2.1 m.2.2 before moved) start call
    exact ⟨mode, m, u, before, failed⟩
  · cases call

theorem reachable_move (mode : cfg.fcMode = .congestionIsolation) {k : ℕ} {it : Item n} {nextQ : ℕ}
    (reach : State.Reachable cfg (fun _ ev => ev.LinksStay) s)
    (moved : s.hierMove cfg k it nextQ = .ok t) :
    State.Reachable cfg (fun _ ev => ev.LinksStay) t := by
  have round : s.step cfg (.hierRR [(k, it, nextQ)]) = .ok t := by
    rw [State.step, State.doHierQRR, if_pos mode, List.foldlM_cons, moved]
    rfl
  exact .step reach (show (Event.hierRR [(k, it, nextQ)] : Event n).LinksStay from trivial) round

theorem egress_asserts (direct : cfg.fcMode ≠ .floodgate)
    (reach : State.Reachable cfg (fun _ ev => ev.LinksStay) s)
    (room : s.refused = false) {ev : Event n} {e : Assert} (call : s.step cfg ev = .error e) :
    e ≠ .removeFromEgressAdmission ∧ e ≠ .doHierQRR := by
  have sound := direct_sound direct reach
  cases ev with
  | arrive p inDev dev q ch =>
    rcases sendToDev_error call with ⟨rfl, -⟩ | ⟨-, failed⟩ | ⟨_, _, _, _, _, _, failed⟩
    · exact ⟨nofun, nofun⟩
    · rw [(doStatistics_error failed).1]
      exact ⟨nofun, nofun⟩
    · rw [(doStatistics_error failed).1]
      exact ⟨nofun, nofun⟩
  | transmit k it flowId =>
    obtain ⟨front, notSkipped, rfl | ⟨rfl, fails⟩⟩ := dequeueAndTransmit_error call
    · exact ⟨nofun, nofun⟩
    · have member := List.mem_of_getElem? front.found
      rcases sound.items it member with frame | stored
      · exact absurd (frame_skipped frame (direct_noSyn sound direct member frame.inDev)) notSkipped
      · exact absurd ⟨stored.queue,
          (egress_fits sound direct (direct_exact direct reach room) member).egress
            stored.inDev⟩ fails
  | hierRR moves =>
    obtain ⟨mode, m, v, ⟨reach', room'⟩, failed⟩ :=
      doHierQRR_error (I := fun u => State.Reachable cfg (fun _ ev => ev.LinksStay) u ∧
        u.refused = false) (fun mode _ _ _ _ _ before moved =>
          ⟨reachable_move mode before.1 moved, (hierMove_refused moved).trans before.2⟩)
            ⟨reach, room⟩ call
    have sound' := direct_sound direct reach'
    obtain ⟨inDev, front, known, ⟨rfl, fails⟩ | ⟨rfl, full⟩⟩ := hierMove_error failed
    · have stored := front_stored sound' front (by rw [known]; rfl)
      exact absurd ⟨stored.queue, (egress_fits sound' direct (direct_exact direct reach' room')
        (List.mem_of_getElem? front.found)).egress stored.inDev⟩ fails
    · exact absurd full (hierMove_room sound' front)
  | _ => cases call

/-- While no link is lost and no queue refuses a packet, the ledgers of the egress are exact,
nothing taken off them wraps, and the asserts on them hold. -/
theorem egress_accounting (direct : cfg.Direct)
    (reach : State.Reachable cfg (fun _ ev => ev.LinksStay) s) (room : s.refused = false) :
    EgressExact s ∧ (∀ ev : Event n, ev.NoWrap cfg s) ∧
      ∀ ev e, s.step cfg ev = .error e → e ≠ .removeFromEgressAdmission ∧ e ≠ .doHierQRR :=
  ⟨direct_exact direct.not_floodgate reach room, egress_noWrap direct.not_floodgate reach room,
    fun _ _ => egress_asserts direct.not_floodgate reach room⟩

/-- Packets from both ports in two queues, one of which a round has moved from CIQ 8 to queue 1
before the first one leaves. -/
def roundTrip : List (Event 3) :=
  let moved : Item 3 := ⟨2, 8, .queue, true, (smallPacket .udp 499).arrived 2⟩
  let sent : Item 3 := ⟨2, 1, .queue, true, (smallPacket .udp 999).arrived 1⟩
  [.registerQ 2, .arrive (smallPacket .udp 999) 1 2 1 ⟨.pass, false⟩,
    .arrive (smallPacket .udp 499) 2 2 8 ⟨.pass, false⟩,
   .arrive (smallPacket .udp 299) 1 2 8 ⟨.pass, false⟩, .hierRR [(1, moved, 1)],
     .transmit 0 sent none]

theorem egress_accounting_round : ∃ s : State 3, s.held.map (fun it => (it.q, it.size)) =
    [(8, 300), (1, 500)] ∧
    EgressExact s ∧ ∀ ev : Event 3, ev.NoWrap (smallConfig .congestionIsolation) s := by
  have ends : ((State.run (smallConfig .congestionIsolation) {} roundTrip).toOption.any fun t =>
      decide (t.held.map (fun it => (it.q, it.size)) = [(8, 300), (1, 500)] ∧ t.refused = false)) =
        true := by
    decide +kernel
  obtain ⟨s, ends, facts⟩ := State.any_ok ends
  obtain ⟨held, room⟩ := of_decide_eq_true facts
  have reach : State.Reachable (smallConfig .congestionIsolation) (fun _ ev => ev.LinksStay) s :=
    State.reachable_run .initial (by simp [roundTrip, Event.LinksStay]) ends
  obtain ⟨exact_, noWrap, -⟩ := egress_accounting (.inr (.inr (.inr rfl))) reach room
  exact ⟨s, held, exact_, noWrap⟩

end Buffer

end Pyrrha

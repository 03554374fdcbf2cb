import Pyrrha.Buffer.Egress
import Pyrrha.Buffer.Ingress

/-! Why the buffers `DoStatistics` adds up agree, and how many bytes a switch can hold before they
do not. -/

namespace Pyrrha
open Lib

namespace Buffer

variable {n : ℕ} {cfg : Config n} {s t u : State n}

/-- The accounts `DoStatistics` reads. -/
def Account.Read : Account n → Prop
  | .egress _ _ | .voq | .voqDst _ | .cache _ => True
  | _ => False

/-- All of them are right, as far as 32 bits go. -/
def BuffersKept (cfg : Config n) (s : State n) : Prop := ∀ a : Account n, a.Read → a.Kept cfg s

theorem buffersKept_quiet (h : BuffersKept cfg s) (quiet : Quiet cfg s t) : BuffersKept cfg t :=
  fun a read => Account.kept_quiet a quiet (h a read)

theorem voqBuffer_eq (h : BuffersKept cfg s) : s.voqBuffer = s.voqBytes := by
  have rows := tracks_sum (l := List.range nodeScale) (Nat.two_pow_pos 32) fun d _ =>
    h (.voqDst d) trivial
  have keys :
    ((List.range nodeScale).map fun d => tally Item.size ((Account.voqDst d).test cfg) s.held).sum =
      tally Item.size ((Account.voq : Account n).test cfg) s.held := by
    have flip : ∀ d, tally Item.size ((Account.voqDst d).test cfg) s.held =
        tally Item.size (fun it => decide (it.place = .voq) &&
          decide ((it.packet.dst : ℕ) = d)) s.held :=
      fun d => tally_congr fun it _ => by simp only [Account.test, eq_comm]
    simp only [flip]
    rw [tally_sum_keys (fun it : Item n => (it.packet.dst : ℕ)) List.nodup_range]
    exact tally_congr fun it _ => by simp [Account.test, List.mem_range]
  have total : Tracks (2 ^ 32) s.voqBuffer
      (tally Item.size ((Account.voq : Account n).test cfg) s.held : ℕ) := by
    rw [← keys]
    exact rows
  exact tracks_unique total (h .voq trivial)

/-- `egress_buffer` counts nothing but what has come in through a port. -/
theorem egressBuffer_le (h : BuffersKept cfg s) :
    s.egressBuffer ≤ tally Item.size (fun it => it.packet.inDev.isSome) s.held := by
  have queues : ∀ dev, ((List.range (s.egressLen dev)).map (s.egressBytes dev)).sum ≤
      tally Item.size (fun it => it.packet.inDev.isSome && decide (it.dev = dev)) s.held := by
    intro dev
    have each : ((List.range (s.egressLen dev)).map (s.egressBytes dev)).sum ≤
      ((List.range (s.egressLen dev)).map
        fun q => tally Item.size (fun it => (it.packet.inDev.isSome && decide (it.dev = dev)) &&
          decide (it.q = q)) s.held).sum := by
      refine List.sum_le_sum fun q _ => (tracks_le (h (.egress dev q) trivial)).trans_eq ?_
      exact tally_congr fun it _ => by simp only [Account.test, eq_comm]
    rw [tally_sum_keys Item.q List.nodup_range] at each
    exact each.trans (tally_mono fun it _ passes => (Bool.and_eq_true _ _ ▸ passes).1)
  unfold State.egressBuffer
  refine (Nat.mod_le _ _).trans ((List.sum_le_sum fun dev _ => queues dev).trans_eq ?_)
  rw [tally_sum_keys Item.dev (List.nodup_finRange n)]
  exact tally_congr fun it _ => by simp [List.mem_finRange]

theorem tally_le_heldBytes (a : Account n) (p : Item n → Bool) :
    tally a.weight p s.held ≤ s.heldBytes := by
  unfold State.heldBytes
  induction s.held with
  | nil => exact le_refl _
  | cons it rest ih =>
    have below := a.weight_le it
    rw [tally_cons, tally_cons]
    split <;> simp <;> omega

theorem heldBytes_split : s.heldBytes = tally Item.size
    (fun it => decide (it.place = .queue)) s.held +
    tally Item.size (fun it => decide (it.place = .cache)) s.held +
      tally Item.size (fun it => decide (it.place = .voq)) s.held := by
  have queued := tally_split (w := Item.size) (p := fun _ => true) (l := s.held)
    fun it : Item n => decide (it.place = .queue)
  have cached := tally_split (w := Item.size) (p := fun it => true && !decide (it.place = .queue))
    (l := s.held) fun it : Item n => decide (it.place = .cache)
  unfold State.heldBytes
  rw [queued, cached, Nat.add_assoc]
  congr 1
  congr 1 <;> refine tally_congr fun it _ => ?_ <;> cases it.place <;> rfl

theorem cache_none (sound : Sound cfg s) (off : cfg.usePortWin = false) :
    tally Item.size (fun it => decide (it.place = .cache)) s.held = 0 := by
  refine tally_zero fun it member => decide_eq_false fun place => ?_
  rcases sound.items it member with frame | stored
  · have queue := frame.place
    rw [place] at queue
    cases queue
  · have on := stored.cache place
    rw [off] at on
    cases on

theorem switchBuffer_eq (sound : Sound cfg s) (h : BuffersKept cfg s)
    (small : s.heldBytes < 2 ^ 32) :
    s.switchBuffer cfg = tally Item.size (fun it => decide (it.place = .queue)) s.held +
      tally Item.size (fun it => decide (it.place = .cache)) s.held := by
  have parts := heldBytes_split (s := s)
  have queues : ((List.finRange n).map s.bytesInQueueTotal).sum =
      tally Item.size (fun it => decide (it.place = .queue)) s.held := by
    have each : s.bytesInQueueTotal = fun dev => tally Item.size (Item.queuedOn dev) s.held :=
      funext sound.queued.total_eq
    rw [each]
    unfold Item.queuedOn
    rw [tally_sum_keys Item.dev (List.nodup_finRange n)]
    exact tally_congr fun it _ => by simp [List.mem_finRange]
  have caches : ((List.finRange n).map s.egressCacheBytes).sum =
      tally Item.size (fun it => decide (it.place = .cache)) s.held := by
    have each : s.egressCacheBytes =
        fun dev => tally Item.size (fun it => decide (it.place = .cache) &&
          decide (it.dev = dev)) s.held := by
      funext dev
      have exact_ : s.egressCacheBytes dev =
          tally Item.size ((Account.cache dev).test cfg) s.held :=
        keeps_exact (h (.cache dev) trivial) ((tally_le_heldBytes (.cache dev) _).trans_lt small)
      rw [exact_]
      exact tally_congr fun it _ => by simp only [Account.test, eq_comm]
    rw [each, tally_sum_keys Item.dev (List.nodup_finRange n)]
    exact tally_congr fun it _ => by simp [List.mem_finRange]
  unfold State.switchBuffer
  rw [queues]
  split
  · rw [caches, Nat.mod_eq_of_lt (by omega), Nat.add_comm]
  · rename_i off
    rw [cache_none sound (Bool.eq_false_of_not_eq_true off), Nat.zero_add, Nat.add_zero,
      Nat.mod_eq_of_lt (by omega)]

/-- `DoStatistics` passes its asserts as long as 32 bits count what is buffered. -/
theorem doStatistics_ok (sound : Sound cfg s) (h : BuffersKept cfg s) (small : s.heldBytes < 2 ^ 32)
    {e : Assert} : s.doStatistics cfg ≠ .error e := by
  intro failed
  refine (doStatistics_error failed).2 ⟨voqBuffer_eq h, ?_⟩
  have parts := heldBytes_split (s := s)
  have voqs : s.voqBytes = tally Item.size (fun it => decide (it.place = .voq)) s.held :=
    keeps_exact (h .voq trivial) ((tally_le_heldBytes .voq _).trans_lt small)
  have all : tally Item.size (fun it : Item n => it.packet.inDev.isSome) s.held ≤ s.heldBytes :=
    tally_mono fun _ _ _ => rfl
  have egress := egressBuffer_le h
  rw [switchBuffer_eq sound h small, voqs, add32, Nat.mod_eq_of_lt (by omega)]
  omega

/-! ### The asserts of an arrival -/

/-- The bytes of the frames an arrival can send back to its port. -/
def Config.frameBytes (cfg : Config n) : ℕ := (1 + cfg.modeFrames) * cfg.pfcSize

/-- There is room for a packet that arrives: 32 bits count all that is buffered, and its
`BEgressQueue` accepts it unless it is held back. -/
def Event.Roomy (cfg : Config n) (s : State n) : Event n → Prop
  | .arrive p inDev dev _ ch => s.heldBytes + cfg.frameBytes + p.size < 2 ^ 32 ∧
    (State.checkVOQWin cfg (p.arrived inDev) ch.window = .pass →
      s.bytesInQueueTotal dev + (if dev = inDev then cfg.frameBytes else 0) + p.size < cfg.maxBytes)
  | _ => True

theorem buffersKept_passed (h : BuffersKept cfg s) {inDev dev : Fin n} {q : ℕ} {p : Packet n}
    {admitted bfcPause : Bool} (known : p.inDev = some inDev)
    (quiet : Quiet cfg (s.chargeAll cfg inDev dev q p admitted bfcPause) u)
    (sent : u.doEnqueue cfg dev q true (p.marked cfg q bfcPause) = some t) : BuffersKept cfg t :=
  fun a read => Account.kept_stored a (h a read) known quiet sent

theorem sendToDev_statistics (sound : Sound cfg s) (h : BuffersKept cfg s) {inDev dev : Fin n}
    {q : ℕ} {p : Packet n} {ch : Choice} (roomy : Event.Roomy cfg s (.arrive p inDev dev q ch)) :
    s.sendToDev cfg inDev dev q p ch ≠ .error .doStatistics := by
  obtain ⟨bytes, space⟩ := roomy
  have quiet : Quiet cfg s (s.matchFlow cfg dev q (p.arrived inDev)) := matchFlow_quiet _ _ _
  have before := sound_quiet sound quiet
  have kept := buffersKept_quiet h quiet
  intro failed
  rcases sendToDev_error failed with ⟨wrong, -⟩ | ⟨-, failed⟩ |
    ⟨admitted, u, enters, window, counters, frames, failed⟩
  · cases wrong
  · have same : (s.matchFlow cfg dev q (p.arrived inDev)).heldBytes = s.heldBytes := by
      unfold State.matchFlow
      split <;> rfl
    exact doStatistics_ok before kept (by omega) failed
  · have passed := sound_passed before enters rfl counters
    have size : ((p.arrived inDev).marked cfg q ch.bfcPause).size = p.size := marked_size _ _ _
    have total : u.bytesInQueueTotal dev ≤
        s.bytesInQueueTotal dev + if dev = inDev then cfg.frameBytes else 0 := by
      split
      · rename_i own
        rw [own]
        exact frames.own
      · rename_i other
        exact (frames.others dev other).le
    have accepts : add32 (u.bytesInQueueTotal dev) p.size < cfg.maxBytes :=
      (Nat.mod_le _ _).trans_lt (by have := space window; omega)
    have sent := @switchSend_accepts n cfg u dev q true ((p.arrived inDev).marked cfg q ch.bfcPause)
      (by rw [size]; exact accepts)
    refine doStatistics_ok passed (buffersKept_passed kept rfl counters sent) ?_ failed
    obtain ⟨-, same⟩ := doEnqueue_cases sent
    have more := frames.held
    rw [same]
    show tally _ _ (u.held ++ _) < _
    rw [tally_concat, if_pos rfl]
    show u.heldBytes + _ < _
    rw [Item.size, size]
    exact lt_of_le_of_lt (Nat.add_le_add_right more _) bytes

/-! ### Links that stay -/

theorem switchSend_linkUp {dev : Fin n} {q : ℕ} {counted : Bool} {p : Packet n} :
    (s.switchSend cfg dev q counted p).linkUp = s.linkUp := by
  rcases switchSend_cases cfg s dev q counted p with refused | sent
  · rw [refused]
  · obtain ⟨-, same⟩ := doEnqueue_cases sent
    rw [same]

theorem hierMove_linkUp {k : ℕ} {it : Item n} {nextQ : ℕ}
    (call : s.hierMove cfg k it nextQ = .ok t) : t.linkUp = s.linkUp := by
  rcases hierMove_cases call with rfl | ⟨inDev, u, -, -, -, -, -, -, sent, rfl⟩
  · rfl
  · obtain ⟨-, same⟩ := doEnqueue_cases sent
    have moved : u.linkUp = s.linkUp := by rw [same]; rfl
    split
    · rw [(updateIngressAdmission_booked _ _ _).linkUp]
      exact moved
    · exact moved

theorem linkUp_step (sound : Sound cfg s) {ev : Event n} (stays : ev.LinksStay)
    (call : s.step cfg ev = .ok t) : t.linkUp = s.linkUp := by
  cases ev with
  | arrive p inDev dev q ch =>
    rcases sendToDev_cases call with ⟨quiet, -⟩ | ⟨admitted, enters, forwarded⟩
    · exact quiet.linkUp
    · have matched : Quiet cfg s (s.matchFlow cfg dev q (p.arrived inDev)) := matchFlow_quiet _ _ _
      refine Eq.trans ?_ matched.linkUp
      rcases forward_cases forwarded with ⟨-, rfl⟩ | ⟨-, rfl⟩ | ⟨-, u, quiet, rfl, -⟩
      · exact (charge_booked inDev dev q (p.arrived inDev) admitted).linkUp
      · exact (charge_booked inDev dev q (p.arrived inDev) admitted).linkUp
      · rw [switchSend_linkUp, quiet.linkUp]
        exact (chargeAll_booked inDev dev q (p.arrived inDev) admitted ch.bfcPause).linkUp
  | transmit k it flowId =>
    rcases transmit_cases sound call with rfl | ⟨-, -, rfl⟩ | ⟨inDev, -, -, -, -, -, quiet⟩
    · rfl
    · rfl
    · rw [quiet.linkUp, (dischargeAll_booked _ _ _ _).linkUp]
      rfl
  | hierRR moves => exact doHierQRR_preserves (fun _ _ _ _ _ _ before moved =>
      (hierMove_linkUp moved).trans before) rfl call
  | releaseVoq k it toCache =>
    cases call
    rcases releaseVoq_cases cfg s k it toCache with same | ⟨-, -, ⟨-, same⟩ | same⟩ <;> rw [same]
    · rfl
    · rw [switchSend_linkUp]
      rfl
  | releaseCache k it =>
    cases call
    rcases releaseCache_cases cfg s k it with same | ⟨-, -, same⟩ <;> rw [same]
    rw [switchSend_linkUp]
    rfl
  | sendFrame dev p =>
    cases call
    exact (sendFrame_quiet dev p).linkUp
  | registerQ dev =>
    cases call
    rfl
  | takeDown dev limited => exact stays.elim

/-! ### Exact counters -/

/-- The packets destined to a queue of a device, wherever they wait. -/
def Item.destined (dev : Fin n) (q : ℕ) (it : Item n) : Bool :=
  it.arrived && decide (it.dev = dev) && decide (it.q = q)

/-- `egress_bytes` is the size of what is destined to the queue, while 32 bits hold it. -/
theorem egress_destined {dev : Fin n} {q : ℕ} (kept : (Account.egress dev q).Kept cfg s)
    (fits : s.arrivedBytes < 2 ^ 32) : s.egressBytes dev q =
      tally Item.size (Item.destined dev q) s.held := by
  have same : tally Item.size ((Account.egress dev q).test cfg) s.held =
      tally Item.size (Item.destined dev q) s.held :=
    tally_congr fun it _ => by simp only [Account.test, Item.destined, Item.arrived, eq_comm]
  have small : tally Item.size (Item.destined dev q) s.held ≤ s.arrivedBytes :=
    tally_mono fun it _ passes => by
      simp only [Item.destined, Bool.and_eq_true] at passes
      exact passes.1.1
  rw [← same] at small ⊢
  exact keeps_exact kept (small.trans_lt fits)

/-- The packets of a port that `m_bytes` knows, for a queue. -/
def Item.entered (inDev dev : Fin n) (q : ℕ) (it : Item n) : Bool :=
  it.destined dev q && it.counted && decide (it.packet.inDev = some inDev)

theorem bytes_entered {inDev dev : Fin n} {q : ℕ} (kept : (Account.bytes inDev dev q).Kept cfg s)
    (fits : s.arrivedBytes < 2 ^ 32) : s.bytes inDev dev q =
      tally Item.size (Item.entered inDev dev q) s.held := by
  have same : tally Item.size ((Account.bytes inDev dev q).test cfg) s.held =
      tally Item.size (Item.entered inDev dev q) s.held := by
    refine tally_congr fun it _ => ?_
    simp only [Account.test, Item.entered, Item.destined, Item.arrived]
    cases known : it.packet.inDev <;> grind
  have small : tally Item.size (Item.entered inDev dev q) s.held ≤ s.arrivedBytes :=
    tally_mono fun it _ passes => by
    simp only [Item.entered, Item.destined, Bool.and_eq_true] at passes
    exact passes.1.1.1.1
  rw [← same] at small ⊢
  exact keeps_exact kept (small.trans_lt fits)

theorem arrivedBytes_le (s : State n) : s.arrivedBytes ≤ s.heldBytes := tally_mono fun _ _ _ => rfl

/-- No step stops in `DoStatistics` while the buffers it adds up are right. -/
theorem statistics_hold (sound : Sound cfg s) (kept : BuffersKept cfg s) {ev : Event n}
    (roomy : ev.Roomy cfg s)
    {e : Assert} (call : s.step cfg ev = .error e) : e ≠ .doStatistics := by
  cases ev with
  | arrive p inDev dev q ch =>
    rintro rfl
    exact sendToDev_statistics sound kept roomy call
  | transmit k it flowId =>
    obtain ⟨-, -, rfl | ⟨rfl, -⟩⟩ := dequeueAndTransmit_error call <;> decide
  | hierRR moves =>
    obtain ⟨-, m, u, -, failed⟩ :=
      doHierQRR_error (I := fun _ => True) (fun _ _ _ _ _ _ _ _ => trivial) trivial call
    obtain ⟨-, -, -, ⟨rfl, -⟩ | ⟨rfl, -⟩⟩ := hierMove_error failed <;> decide
  | _ => cases call

/-- Nor does a transmission stop in `RemoveFromEgressAdmission`, if it is not one of an own SYN. -/
theorem transmit_covered (sound : Sound cfg s)
    (egress : ∀ dev q, s.egressBytes dev q = tally Item.size (Item.destined dev q) s.held) {k : ℕ}
    {it : Item n}
    {flowId : Option (Fin n)} (noSyn : (Event.transmit k it flowId).NoSyn s) {e : Assert}
    (call : s.dequeueAndTransmit cfg k it flowId = .error e) : e = .switchNotifyDequeue := by
  obtain ⟨front, notSkipped, rfl | ⟨rfl, fails⟩⟩ := dequeueAndTransmit_error call
  · rfl
  · have member := List.mem_of_getElem? front.found
    rcases sound.items it member with frame | stored
    · exact absurd (frame_skipped frame (noSyn front frame.inDev)) notSkipped
    · refine absurd ⟨stored.queue, ?_⟩ fails
      rw [egress]
      exact le_tally member (by simp [Item.destined, Item.arrived, stored.inDev])

theorem settles_always {a : Account n} (always : ∀ it, a.Settles cfg it) (ev : Event n) :
    ev.Settles cfg s a := by
  cases ev with
  | transmit k it flowId => exact fun _ _ => always it
  | _ => trivial

/-! ### Floodgate -/

namespace Event

/-- No link is lost, no SYN of the switch itself is transmitted, and an arrival finds room. -/
def Orderly (cfg : Config n) (s : State n) (ev : Event n) : Prop :=
  ev.LinksStay ∧ ev.NoSyn s ∧ ev.Roomy cfg s

/-- A packet that is transmitted was not held back. -/
def Counted (s : State n) : Event n → Prop
  | .transmit k it _ => AtFront s k it → it.packet.inDev.isSome = true → it.counted = true
  | _ => True

end Event

theorem orderly_kept {a : Account n} {allowed : State n → Event n → Prop}
    (orderly : ∀ s ev, allowed s ev → ev.Orderly cfg s)
    (settles : ∀ s ev, allowed s ev → ev.Settles cfg s a) (reach : State.Reachable cfg allowed s)
    (room : s.refused = false) : a.Kept cfg s := by
  refine (kept_reachable (fun s ev _ permitted => ?_) reach).2 room
  obtain ⟨stays, noSyn, -⟩ := orderly s ev permitted
  refine ⟨noSyn, ?_, settles s ev permitted⟩
  cases ev with
  | takeDown dev limited => exact stays.elim
  | _ => trivial

theorem orderly_links (reach : State.Reachable cfg (fun s ev => ev.Orderly cfg s) s) (dev : Fin n) :
    s.linkUp dev = true := by
  have both : Sound cfg s ∧ s.linkUp = fun _ => true := by
    refine State.reachable_induction (I := fun u => Sound cfg u ∧ u.linkUp = fun _ => true)
      ⟨sound_initial, rfl⟩ (fun s t ev before orderly call => ?_) reach
    exact ⟨sound_step before.1 call, (linkUp_step before.1 orderly.1 call).trans before.2⟩
  rw [both.2]

theorem orderly_fits {ev : Event n} (h : ev.Orderly cfg s) : ev.IngressFits cfg s := by
  obtain ⟨stays, noSyn, roomy⟩ := h
  cases ev with
  | arrive p inDev dev q ch =>
    have bytes := roomy.1
    have part := arrivedBytes_le s
    show s.arrivedBytes + p.size < 2 ^ 32
    omega
  | transmit k it flowId => exact fun front own syn => absurd syn (noSyn front own)
  | takeDown dev limited => exact stays
  | _ => trivial

theorem orderly_arrived (mode : cfg.fcMode = .floodgate)
    (reach : State.Reachable cfg (fun s ev => ev.Orderly cfg s) s) (room : s.refused = false) :
    s.arrivedBytes < 2 ^ 32 := by
  have kept : cfg.IngressKept := ⟨by simp [mode], by simp [mode]⟩
  exact ((right_reachable kept (reach.mono fun _ _ => orderly_fits)).2 room).fits

theorem sound_reachable {allowed : State n → Event n → Prop}
    (reach : State.Reachable cfg allowed s) : Sound cfg s :=
  State.reachable_induction (I := Sound cfg) sound_initial
    (fun _ _ _ before _ call => sound_step before call) reach

/-- Under Floodgate `egress_bytes` counts every packet destined to the queue. -/
theorem orderly_egress (mode : cfg.fcMode = .floodgate)
    (reach : State.Reachable cfg (fun s ev => ev.Orderly cfg s) s) (room : s.refused = false)
    (dev : Fin n) (q : ℕ) : s.egressBytes dev q = tally Item.size (Item.destined dev q) s.held :=
  egress_destined (orderly_kept (a := .egress dev q) (fun _ _ ok => ok)
    (fun _ ev _ => settles_always (a := .egress dev q) (fun _ => trivial) ev) reach room)
      (orderly_arrived mode reach room)

/-- The asserts of `SendToDev`, `RemoveFromEgressAdmission` and `DoStatistics` hold under
Floodgate. -/
theorem orderly_asserts (mode : cfg.fcMode = .floodgate) (windows : cfg.useSwitchwin = true)
    (reach : State.Reachable cfg (fun s ev => ev.Orderly cfg s) s) (room : s.refused = false)
    {ev : Event n} (orderly : ev.Orderly cfg s) {e : Assert} (call : s.step cfg ev = .error e) :
    e ≠ .removeFromEgressAdmission ∧ e ≠ .sendToDev ∧ e ≠ .doStatistics := by
  have sound := sound_reachable reach
  have kept : BuffersKept cfg s := by
    intro a read
    refine orderly_kept (fun _ _ ok => ok)
      (fun _ ev _ => settles_always (fun it => ?_) ev) reach room
    cases a <;> first | exact trivial | exact read.elim
  have statistics := statistics_hold sound kept orderly.2.2 call
  cases ev with
  | arrive p inDev dev q ch =>
    rcases sendToDev_error call with ⟨rfl, down | ⟨prot, goesOn⟩ | bfc⟩ | ⟨-, failed⟩ | ⟨_, _, _, _,
      _, _, failed⟩
    · rw [orderly_links reach dev] at down
      cases down
    · rw [State.consumes, prot] at goesOn
      dsimp only at goesOn
      rw [windows] at goesOn
      cases goesOn
    · rw [mode] at bfc
      cases bfc
    · exact absurd (doStatistics_error failed).1 statistics
    · exact absurd (doStatistics_error failed).1 statistics
  | transmit k it flowId =>
    rw [transmit_covered sound (orderly_egress mode reach room) orderly.2.1 call]
    exact ⟨by decide, by decide, by decide⟩
  | hierRR moves =>
    rw [State.step, State.doHierQRR, if_neg (by simp [mode])] at call
    cases call
  | _ => cases call

/-- `m_bytes` counts what `SendToDev` has entered, as long as nothing else is transmitted. -/
theorem orderly_bytes (mode : cfg.fcMode = .floodgate)
    (reach : State.Reachable cfg (fun s ev => ev.Orderly cfg s ∧ ev.Counted s) s)
    (room : s.refused = false) (inDev dev : Fin n) (q : ℕ) : s.bytes inDev dev q =
      tally Item.size (Item.entered inDev dev q) s.held := by
  refine bytes_entered (orderly_kept (fun _ _ ok => ok.1) (fun s ev ok => ?_) reach room)
    (orderly_arrived mode (reach.mono fun _ _ ok => ok.1) room)
  cases ev with
  | transmit k it flowId => exact ok.2
  | _ => trivial

/-- Under Floodgate, while links stay, no SYN of the switch itself is transmitted and packets find
room, `egress_bytes` is exact and the asserts hold; so is `m_bytes`, and never negative, while no
packet that was held back is transmitted. -/
theorem floodgate_accounting (mode : cfg.fcMode = .floodgate) (windows : cfg.useSwitchwin = true)
    (reach : State.Reachable cfg (fun s ev => ev.Orderly cfg s) s) (room : s.refused = false) :
    (∀ dev q, s.egressBytes dev q = tally Item.size (Item.destined dev q) s.held) ∧
      (∀ (ev : Event n) (e : Assert), ev.Orderly cfg s → s.step cfg ev = .error e →
        e ≠ .removeFromEgressAdmission ∧ e ≠ .sendToDev ∧ e ≠ .doStatistics) ∧
      (State.Reachable cfg (fun s ev => ev.Orderly cfg s ∧ ev.Counted s) s →
        (∀ inDev dev q, s.bytes inDev dev q = tally Item.size (Item.entered inDev dev q) s.held) ∧
        ∀ k it inDev, AtFront s k it → it.counted = true → it.packet.inDev = some inDev →
          it.size ≤ s.bytes inDev it.dev it.q) := by
  refine ⟨orderly_egress mode reach room, fun ev e orderly =>
    orderly_asserts mode windows reach room orderly,
    fun counted => ⟨orderly_bytes mode counted room, fun k it inDev front known from_ => ?_⟩⟩
  rw [orderly_bytes mode counted room]
  exact le_tally (List.mem_of_getElem? front.found)
    (by simp [Item.entered, Item.destined, Item.arrived, known, from_])

/-- One packet in its queue and one in a VOQ. -/
theorem floodgate_accounting_voq : ∃ s : State 3, s.held.map Item.place = [.queue, .voq] ∧
    s.egressBytes 2 1 = tally Item.size (Item.destined 2 1) s.held ∧ s.egressBytes 2 1 = 2000 := by
  let first : Event 3 := .arrive (smallPacket .udp 999) 1 2 1 ⟨.pass, false⟩
  let second : Event 3 := .arrive (smallPacket .udp 999) 1 2 1 ⟨.voq, false⟩
  obtain ⟨s, t, ends, call, bytes, facts⟩ := State.run_step (smallConfig .floodgate) [first] second
    (fun s => decide (s.heldBytes = 1000 ∧ s.bytesInQueueTotal 2 = 1000))
    (fun t => decide (t.held.map Item.place = [.queue, .voq] ∧ t.refused = false ∧
      t.egressBytes 2 1 = 2000))
    (by decide +kernel)
  obtain ⟨held, total⟩ := of_decide_eq_true bytes
  obtain ⟨places, room, both⟩ := of_decide_eq_true facts
  have frames : (smallConfig .floodgate).frameBytes = 64 := by decide
  obtain ⟨u, firstCall, nothing⟩ := bind_ok ends
  cases nothing
  have one : first.Orderly (smallConfig .floodgate) {} := by
    refine ⟨trivial, trivial, ?_, fun _ => ?_⟩
    · rw [frames]
      decide
    · decide
  have two : second.Orderly (smallConfig .floodgate) s := by
    refine ⟨trivial, trivial, ?_, fun passes => ?_⟩
    · rw [frames, held]
      decide
    · exact absurd passes (by decide)
  have reach := State.Reachable.step (.step .initial one firstCall) two call
  exact ⟨t, places, (floodgate_accounting rfl rfl reach room).1 2 1, both⟩

/-- A packet that was held back in a VOQ is taken off `m_bytes` without ever being entered. -/
theorem held_back_wraps : ∃ (s t : State 3) (it : Item 3),
    State.Reachable (smallConfig .floodgate) (fun s ev => ev.Orderly (smallConfig .floodgate) s) s ∧
    s.refused = false ∧
    AtFront s 0 it ∧ (Event.transmit 0 it none).Orderly (smallConfig .floodgate) s ∧
    s.step (smallConfig .floodgate) (.transmit 0 it none) = .ok t ∧ it.packet.inDev = some 1 ∧
    ¬it.size ≤ s.bytes 1 it.dev it.q ∧ t.bytes 1 2 1 = 2 ^ 32 - 1000 := by
  let waiting : Item 3 := ⟨2, 1, .voq, false, (smallPacket .udp 999).arrived 1⟩
  let it : Item 3 := ⟨2, 1, .queue, false, (smallPacket .udp 999).arrived 1⟩
  let arrival : Event 3 := .arrive (smallPacket .udp 999) 1 2 1 ⟨.voq, false⟩
  obtain ⟨s, t, ends, call, facts, after⟩ := State.run_step (smallConfig .floodgate)
    [arrival, .releaseVoq 0 waiting false] (.transmit 0 it none)
    (fun s => decide (s.held[0]? = some it ∧ s.refused = false ∧ s.bytes 1 2 1 = 0))
    (fun t => decide (t.bytes 1 2 1 = 2 ^ 32 - 1000)) (by decide +kernel)
  obtain ⟨found, room, zero⟩ := of_decide_eq_true facts
  obtain ⟨u, firstCall, rest⟩ := bind_ok ends
  obtain ⟨v, secondCall, nothing⟩ := bind_ok rest
  cases nothing
  have frames : (smallConfig .floodgate).frameBytes = 64 := by decide
  have one : arrival.Orderly (smallConfig .floodgate) {} := by
    refine ⟨trivial, trivial, ?_, fun passes => ?_⟩
    · rw [frames]
      decide
    · exact absurd passes (by decide)
  have two : (Event.releaseVoq 0 waiting false).Orderly (smallConfig .floodgate) u :=
    ⟨trivial, trivial, trivial⟩
  have reach := State.Reachable.step (.step .initial one firstCall) two secondCall
  refine ⟨s, t, it, reach, room, ⟨found, rfl⟩, ⟨trivial, fun _ own => ?_, trivial⟩, call, rfl, ?_,
    of_decide_eq_true after⟩
  · cases own
  · show ¬1000 ≤ s.bytes 1 2 1
    omega

end Buffer

end Pyrrha

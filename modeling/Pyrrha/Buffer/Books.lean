import Pyrrha.Buffer.Account

/-!
What holds of the buffered packets and of the accounts in every run: which packets can be where, and
that every step keeps the accounts.
-/

namespace Pyrrha
open Lib

namespace Buffer

variable {n : ℕ} {cfg : Config n} {s t u : State n}

/-! ### The buffered packets -/

/-- A packet that has come in through a port: where it can wait, and when `m_bytes` does not know
it. -/
structure Stored (cfg : Config n) (s : State n) (it : Item n) : Prop where
  inDev : it.packet.inDev.isSome = true
  notSkipped : ¬Skipped it.packet
  queue : it.q < s.egressLen it.dev
  range : it.q < s.nQueue it.dev
  counted : it.counted = false → cfg.fcMode = .floodgate
  place : it.place ≠ .queue → it.counted = false
  cache : it.place = .cache → cfg.usePortWin = true

/-- Every buffered packet is a control frame or has come in through a port, and the byte counters of
the queues are right. -/
structure Sound (cfg : Config n) (s : State n) : Prop where
  queued : s.Queued cfg
  nQueue : ∀ dev, 0 < s.nQueue dev
  items : ∀ it ∈ s.held, it.IsFrame cfg ∨ Stored cfg s it

theorem sound_initial : Sound cfg {} where
  queued := ⟨fun _ _ => rfl, fun _ => rfl, fun _ => .inl rfl⟩
  nQueue := fun _ => Nat.succ_pos 7
  items := fun _ h => absurd h List.not_mem_nil

theorem Stored.mono {it : Item n} (h : Stored cfg s it)
    (len : ∀ dev, s.egressLen dev ≤ t.egressLen dev)
    (queues : ∀ dev, s.nQueue dev ≤ t.nQueue dev) : Stored cfg t it where
  inDev := h.inDev
  notSkipped := h.notSkipped
  queue := h.queue.trans_le (len _)
  range := h.range.trans_le (queues _)
  counted := h.counted
  place := h.place
  cache := h.cache

theorem sound_quiet (h : Sound cfg s) (quiet : Quiet cfg s t) : Sound cfg t where
  queued := quiet.queued h.queued
  nQueue := fun dev => by rw [quiet.nQueue]; exact h.nQueue dev
  items := by
    obtain ⟨frames, held, areFrames⟩ := quiet.held
    rw [held]
    intro it member
    rcases List.mem_append.mp member with old | new
    · refine (h.items it old).imp_right fun stored => stored.mono ?_ ?_
      · rw [quiet.egressLen]
        exact fun _ => le_refl _
      · rw [quiet.nQueue]
        exact fun _ => le_refl _
    · exact .inl (areFrames it new)

theorem sound_booked (h : Sound cfg s) (booked : Booked s t) : Sound cfg t where
  queued := booked.queued h.queued
  nQueue := fun dev => by rw [booked.nQueue]; exact h.nQueue dev
  items := by
    rw [booked.held]
    intro it member
    refine (h.items it member).imp_right fun stored => stored.mono booked.egressLen ?_
    rw [booked.nQueue]
    exact fun _ => le_refl _

theorem sound_switchSend (h : Sound cfg s) {dev : Fin n} {q : ℕ} {counted : Bool} {p : Packet n}
    (stored : Stored cfg s ⟨dev, q, .queue, counted, p⟩) :
    Sound cfg (s.switchSend cfg dev q counted p) := by
  have queued : (s.switchSend cfg dev q counted p).Queued cfg := switchSend_queued h.queued
  rcases switchSend_cases cfg s dev q counted p with refused | sent
  · rw [refused] at queued ⊢
    exact ⟨queued, h.nQueue, fun it member => (h.items it member).imp_right fun old => old.mono
      (fun _ => le_refl _) (fun _ => le_refl _)⟩
  · obtain ⟨-, same⟩ := doEnqueue_cases sent
    rw [same] at queued ⊢
    refine ⟨queued, h.nQueue, fun it member => ?_⟩
    rcases List.mem_append.mp member with old | new
    · exact (h.items it old).imp_right fun entry =>
        entry.mono (fun _ => le_refl _) (fun _ => le_refl _)
    · rw [List.mem_singleton.mp new]
      exact .inr (stored.mono (fun _ => le_refl _) (fun _ => le_refl _))

theorem items_subset (h : Sound cfg s) (held : ∀ it ∈ t.held, it ∈ s.held)
    (len : t.egressLen = s.egressLen)
    (queues : t.nQueue = s.nQueue) : ∀ it ∈ t.held, it.IsFrame cfg ∨ Stored cfg t it := by
  refine fun it member => (h.items it (held it member)).imp_right fun stored => stored.mono ?_ ?_
  · rw [len]
    exact fun _ => le_refl _
  · rw [queues]
    exact fun _ => le_refl _

theorem sound_popQueue (h : Sound cfg s) {k : ℕ} {it : Item n} (front : AtFront s k it) :
    Sound cfg (s.popQueue k it) :=
  ⟨popQueue_queued h.queued front.found front.place, h.nQueue,
    items_subset h (fun _ => List.mem_of_mem_eraseIdx) rfl rfl⟩

/-- A packet that is added outside the queues does not matter to them. -/
theorem queued_append (h : s.Queued cfg) {it : Item n} (place : it.place ≠ .queue) :
    Queues cfg (s.held ++ [it]) s.bytesInQueue s.bytesInQueueTotal := by
  refine ⟨fun dev q => ?_, fun dev => ?_, h.bound⟩
  · rw [tally_concat, if_neg (by simp [Item.queued, place]), Nat.add_zero]
    exact h.inQueue_eq dev q
  · rw [tally_concat, if_neg (by simp [Item.queuedOn, place]), Nat.add_zero]
    exact h.total_eq dev

theorem queued_eraseIdx (h : s.Queued cfg) {k : ℕ} {it : Item n} (at_k : s.held[k]? = some it)
    (place : it.place ≠ .queue) :
    Queues cfg (s.held.eraseIdx k) s.bytesInQueue s.bytesInQueueTotal := by
  refine ⟨fun dev q => ?_, fun dev => ?_, h.bound⟩
  · rw [h.inQueue_eq, ← tally_eraseIdx at_k, if_neg (by simp [Item.queued, place]), Nat.add_zero]
  · rw [h.total_eq, ← tally_eraseIdx at_k, if_neg (by simp [Item.queuedOn, place]), Nat.add_zero]

theorem sound_append (h : Sound cfg s) {it : Item n} (stored : Stored cfg s it)
    (place : it.place ≠ .queue)
    (held : t.held = s.held ++ [it]) (same : t.bytesInQueue = s.bytesInQueue ∧
      t.bytesInQueueTotal = s.bytesInQueueTotal ∧ t.egressLen = s.egressLen ∧ t.nQueue = s.nQueue) :
      Sound cfg t := by
  obtain ⟨inQueue, total, len, queues⟩ := same
  have mono : ∀ x, Stored cfg s x → Stored cfg t x := fun x entry =>
    entry.mono (fun dev => (congrFun len dev).ge) (fun dev => (congrFun queues dev).ge)
  refine ⟨?_, fun dev => by rw [queues]; exact h.nQueue dev, ?_⟩
  · unfold State.Queued
    rw [held, inQueue, total]
    exact queued_append h.queued place
  · rw [held]
    intro x member
    rcases List.mem_append.mp member with old | new
    · exact (h.items x old).imp_right (mono x)
    · rw [List.mem_singleton.mp new]
      exact .inr (mono it stored)

theorem sound_popVoq (h : Sound cfg s) {k : ℕ} {it : Item n} (at_k : s.held[k]? = some it)
    (place : it.place = .voq) : Sound cfg (s.popVoq k it) :=
  ⟨queued_eraseIdx h.queued at_k (by simp [place]), h.nQueue,
    items_subset h (fun _ => List.mem_of_mem_eraseIdx) rfl rfl⟩

theorem sound_popCache (h : Sound cfg s) {k : ℕ} {it : Item n} (at_k : s.held[k]? = some it)
    (place : it.place = .cache) : Sound cfg (s.popCache k it) :=
  ⟨queued_eraseIdx h.queued at_k (by simp [place]), h.nQueue,
    items_subset h (fun _ => List.mem_of_mem_eraseIdx) rfl rfl⟩

/-! ### Arrival -/

theorem checkVOQWin_held {p : Packet n} {window : Window}
    (h : State.checkVOQWin cfg p window ≠ .pass) :
    cfg.fcMode = .floodgate ∧ cfg.useSwitchwin = true ∧ p.l3Prot = .udp := by
  unfold State.checkVOQWin at h
  split at h
  · assumption
  · exact absurd rfl h

theorem checkVOQWin_cache {p : Packet n} {window : Window}
    (h : State.checkVOQWin cfg p window = .cache) : cfg.usePortWin = true := by
  unfold State.checkVOQWin at h
  split at h
  · split at h
    · cases h
    · rename_i _ windows
      exact Bool.not_eq_false _ |>.mp fun off => windows ⟨h, off⟩
  · cases h

theorem Enters.notSkipped {inDev dev : Fin n} {q : ℕ} {p : Packet n} {admitted : Bool}
    (h : Enters cfg s inDev dev q p admitted) : ¬Skipped p := by
  have notConsumed := h.notConsumed
  rintro (prot | prot | prot)
  · exact h.prot prot
  · simp [State.consumes, prot] at notConsumed
  · simp [State.consumes, prot] at notConsumed

theorem sound_passed (h : Sound cfg s) {inDev dev : Fin n} {q : ℕ} {p : Packet n}
    {admitted bfcPause : Bool}
    (enters : Enters cfg s inDev dev q p admitted) (known : p.inDev = some inDev)
    (quiet : Quiet cfg (s.chargeAll cfg inDev dev q p admitted bfcPause) u) :
    Sound cfg (u.switchSend cfg dev q true (p.marked cfg q bfcPause)) := by
  have booked : Booked s (s.chargeAll cfg inDev dev q p admitted bfcPause) :=
    chargeAll_booked _ _ _ _ _ _
  have before := sound_quiet (sound_booked h booked) quiet
  refine sound_switchSend before ⟨?_, ?_, ?_, ?_, nofun, fun away => absurd rfl away, nofun⟩
  · rw [marked_inDev, known]
    rfl
  · intro skipped
    rw [Skipped, marked_l3Prot] at skipped
    exact enters.notSkipped skipped
  · rw [quiet.egressLen]
    exact chargeAll_egressLen cfg s inDev dev q p admitted bfcPause
  · rw [quiet.nQueue]
    exact (congrFun booked.nQueue dev).symm ▸ enters.queue

theorem sound_forward (h : Sound cfg s) {inDev dev : Fin n} {q : ℕ} {p : Packet n} {ch : Choice}
    {admitted : Bool} (enters : Enters cfg s inDev dev q p admitted) (known : p.inDev = some inDev)
    (call : (s.charge cfg inDev dev q p admitted).forward cfg inDev dev q p ch = .ok t) :
    Sound cfg t := by
  have charged : Sound cfg (s.charge cfg inDev dev q p admitted) :=
    sound_booked h (charge_booked _ _ _ _ _)
  have len := charge_egressLen cfg s inDev dev q p admitted
  have range : q < (s.charge cfg inDev dev q p admitted).nQueue dev := by
    rw [(charge_booked _ _ _ _ _).nQueue]
    exact enters.queue
  have inDev_isSome : p.inDev.isSome = true := by rw [known]; rfl
  rcases forward_cases call with ⟨window, rfl⟩ | ⟨window, rfl⟩ | ⟨-, u, quiet, rfl, -⟩
  · obtain ⟨mode, -, -⟩ := checkVOQWin_held (by rw [window]; nofun)
    exact sound_append charged ⟨inDev_isSome, enters.notSkipped, len, range, fun _ => mode,
      fun _ => rfl, by simp⟩ (by simp) rfl ⟨rfl, rfl, rfl, rfl⟩
  · obtain ⟨mode, -, -⟩ := checkVOQWin_held (by rw [window]; nofun)
    have port := checkVOQWin_cache window
    exact sound_append charged ⟨inDev_isSome, enters.notSkipped, len, range, fun _ => mode,
      fun _ => rfl, fun _ => port⟩ (by simp) rfl ⟨rfl, rfl, rfl, rfl⟩
  · exact sound_passed h enters known quiet

theorem sound_sendToDev (h : Sound cfg s) {inDev dev : Fin n} {q : ℕ} {p : Packet n} {ch : Choice}
    (call : s.sendToDev cfg inDev dev q p ch = .ok t) : Sound cfg t := by
  rcases sendToDev_cases call with ⟨quiet, -⟩ | ⟨admitted, enters, forwarded⟩
  · exact sound_quiet h quiet
  · exact sound_forward (sound_quiet h (matchFlow_quiet _ _ _)) enters rfl forwarded

theorem switchSend_sent {dev : Fin n} {q : ℕ} {counted : Bool} {p : Packet n}
    (arrived : p.inDev.isSome = true) (h : (s.switchSend cfg dev q counted p).refused = false) :
    s.doEnqueue cfg dev q counted p = some (s.switchSend cfg dev q counted p) := by
  rcases switchSend_cases cfg s dev q counted p with refused | sent
  · rw [refused, arrived] at h
    simp at h
  · exact sent

theorem switchSend_accepts {dev : Fin n} {q : ℕ} {counted : Bool} {p : Packet n}
    (room : add32 (s.bytesInQueueTotal dev) p.size < cfg.maxBytes) :
    s.doEnqueue cfg dev q counted p = some (s.switchSend cfg dev q counted p) := by
  unfold State.switchSend
  cases sent : s.doEnqueue cfg dev q counted p with
  | none =>
    unfold State.doEnqueue at sent
    rw [if_pos room] at sent
    cases sent
  | some t => rfl

theorem kept_sendToDev {a : Account n} (before : a.Kept cfg s) {inDev dev : Fin n} {q : ℕ}
    {p : Packet n}
    {ch : Choice} (call : s.sendToDev cfg inDev dev q p ch = .ok t) (room : t.refused = false) :
    a.Kept cfg t := by
  rcases sendToDev_cases call with ⟨quiet, -⟩ | ⟨admitted, enters, forwarded⟩
  · exact Account.kept_quiet a quiet before
  · have matched := Account.kept_quiet a (matchFlow_quiet dev q (p.arrived inDev)) before
    rcases forward_cases forwarded with ⟨window, rfl⟩ | ⟨window, rfl⟩ | ⟨-, u, quiet, rfl, -⟩
    · exact Account.kept_holdVoq a matched rfl (checkVOQWin_held (by rw [window]; nofun)).1
    · exact Account.kept_holdCache a matched rfl (checkVOQWin_held (by rw [window]; nofun)).1
    · exact Account.kept_stored a matched rfl quiet (switchSend_sent (by rw [marked_inDev]; rfl) room)

/-! ### Transmission -/

theorem frame_skipped {it : Item n} (frame : it.IsFrame cfg)
    (noSyn : it.packet.l3Prot ≠ .switchPsn) : Skipped it.packet := by
  rcases frame.prot with pfc | ci | ⟨-, ack | syn⟩
  · exact .inr (.inl pfc)
  · exact .inr (.inr ci)
  · exact .inl ack
  · exact absurd syn noSyn

/-- A transmission takes a frame out of its queue, or discharges a packet. The port a SYN is
discharged from is the uninitialised `FlowIdTag`. -/
theorem transmit_cases (h : Sound cfg s) {k : ℕ} {it : Item n} {flowId : Option (Fin n)}
    (call : s.dequeueAndTransmit cfg k it flowId = .ok t) : t = s ∨
      (AtFront s k it ∧ it.IsFrame cfg ∧ t = s.popQueue k it) ∨
      ∃ inDev, AtFront s k it ∧ ((it.IsFrame cfg ∧ it.packet.l3Prot = .switchPsn) ∨
          (Stored cfg s it ∧ it.packet.inDev = some inDev)) ∧
        s.linkUp it.dev = true ∧ it.size ≤ s.egressBytes it.dev it.q ∧
        (s.popQueue k it).switchNotifyDequeue cfg it.dev it.q it.packet flowId = .ok t ∧
        Quiet cfg ((s.popQueue k it).dischargeAll cfg inDev it.dev it.q it.packet) t := by
  rcases dequeueAndTransmit_cases call with rfl | ⟨front, up, -, notified⟩
  · exact .inl rfl
  · right
    have kind := h.items it (List.mem_of_getElem? front.found)
    rcases switchNotifyDequeue_cases notified with ⟨skipped, rfl⟩ | ⟨notSkipped, inDev, known, -,
      fits, quiet⟩
    · rcases kind with frame | stored
      · exact .inl ⟨front, frame, rfl⟩
      · exact absurd skipped stored.notSkipped
    · refine .inr ⟨inDev, front, ?_, up, fits, notified, quiet⟩
      rcases kind with frame | stored
      · exact .inl ⟨frame, by_contra fun noSyn => notSkipped (frame_skipped frame noSyn)⟩
      · obtain ⟨port, found⟩ := Option.isSome_iff_exists.mp stored.inDev
        rw [found, Option.some_or, Option.some.injEq] at known
        exact .inr ⟨stored, known ▸ found⟩

theorem sound_transmit (h : Sound cfg s) {k : ℕ} {it : Item n} {flowId : Option (Fin n)}
    (call : s.dequeueAndTransmit cfg k it flowId = .ok t) : Sound cfg t := by
  rcases transmit_cases h call with rfl | ⟨front, -, rfl⟩ | ⟨inDev, front, -, -, -, -, quiet⟩
  · exact h
  · exact sound_popQueue h front
  · exact sound_quiet (sound_booked (sound_popQueue h front) (dischargeAll_booked _ _ _ _)) quiet

theorem kept_transmit (h : Sound cfg s) {a : Account n} (before : a.Kept cfg s) {k : ℕ}
    {it : Item n} {flowId : Option (Fin n)} (noSyn : AtFront s k it → it.packet.inDev = none →
      it.packet.l3Prot ≠ .switchPsn)
    (settles : AtFront s k it → it.packet.inDev.isSome = true → a.Settles cfg it)
    (call : s.dequeueAndTransmit cfg k it flowId = .ok t) : a.Kept cfg t := by
  rcases transmit_cases h call with rfl | ⟨front, frame, rfl⟩ |
    ⟨inDev, front, ⟨frame, syn⟩ | ⟨stored, known⟩, -, -, -, quiet⟩
  · exact before
  · exact Account.kept_frame a before front frame
  · exact absurd syn (noSyn front frame.inDev)
  · exact Account.kept_discharged a before front known (settles front stored.inDev) quiet

/-! ### The hierarchical round -/

theorem subEgress_booked (dev : Fin n) (q psize : ℕ) : Booked s (s.subEgress dev q psize) :=
  ⟨rfl, rfl, rfl, rfl, rfl, rfl, rfl, rfl, fun _ => le_refl _⟩

theorem subBytes_booked (inDev dev : Fin n) (q psize : ℕ) :
    Booked s (s.subBytes inDev dev q psize) :=
  ⟨rfl, rfl, rfl, rfl, rfl, rfl, rfl, rfl, fun _ => le_refl _⟩

/-- A packet `DoHierQRR` moves has come in through a port, and `m_bytes` knows it. -/
theorem front_stored (h : Sound cfg s) {k : ℕ} {it : Item n} (front : AtFront s k it)
    (arrived : it.packet.inDev.isSome = true) : Stored cfg s it := by
  rcases h.items it (List.mem_of_getElem? front.found) with frame | stored
  · rw [frame.inDev] at arrived
    cases arrived
  · exact stored

theorem sound_hierMove (h : Sound cfg s) {k : ℕ} {it : Item n} {nextQ : ℕ}
    (call : s.hierMove cfg k it nextQ = .ok t) : Sound cfg t := by
  rcases hierMove_cases call with rfl | ⟨inDev, u, front, known, -, range, -, -, sent, rfl⟩
  · exact h
  · have stored := front_stored h front (by rw [known]; rfl)
    have left :=
      sound_booked (sound_booked (sound_popQueue h front) (subEgress_booked it.dev it.q it.size))
      (subBytes_booked inDev it.dev it.q it.size)
    -- the packet is in its new queue before `UpdateEgressAdmission` has made room for the index
    have queued := doEnqueue_queued left.queued sent
    obtain ⟨-, same⟩ := doEnqueue_cases sent
    have len : u.egressLen = s.egressLen := by rw [same]; rfl
    have queues : u.nQueue = s.nQueue := by rw [same]; rfl
    have moved : Sound cfg
        ((u.addBytes inDev it.dev nextQ it.size).updateEgressAdmission it.dev nextQ it.size) := by
      have added : Booked u (u.addBytes inDev it.dev nextQ it.size) := addBytes_booked _ _ _ _
      have booked := added.trans (updateEgressAdmission_booked it.dev nextQ it.size)
      refine ⟨booked.queued queued, fun dev => ?_, fun x member => ?_⟩
      · rw [booked.nQueue, queues]
        exact h.nQueue dev
      · rw [booked.held, same] at member
        rcases List.mem_append.mp member with old | new
        · refine (left.items x old).imp_right fun other =>
            other.mono (fun dev => ?_) (fun dev => ?_)
          · exact (congrFun len dev).ge.trans (booked.egressLen dev)
          · rw [booked.nQueue, queues]
            exact le_refl _
        · rw [List.mem_singleton.mp new]
          refine .inr ⟨stored.inDev, stored.notSkipped,
            updateEgressAdmission_lt it.dev nextQ it.size, ?_, nofun,
            fun away => absurd rfl away, by simp⟩
          rw [booked.nQueue, queues]
          exact range
    split
    · exact sound_booked moved (updateIngressAdmission_booked _ _ _)
    · exact moved

theorem kept_hierMove (h : Sound cfg s) (mode : cfg.fcMode = .congestionIsolation) {a : Account n}
    (before : a.Kept cfg s) {k : ℕ} {it : Item n} {nextQ : ℕ}
    (call : s.hierMove cfg k it nextQ = .ok t) : a.Kept cfg t := by
  rcases hierMove_cases call with rfl | ⟨inDev, u, front, known, -, -, -, -, sent, rfl⟩
  · exact before
  · have stored := front_stored h front (by rw [known]; rfl)
    have counted : it.counted = true := by
      by_contra uncounted
      have floodgate := stored.counted (Bool.eq_false_of_not_eq_true uncounted)
      rw [mode] at floodgate
      cases floodgate
    have moved := Account.kept_moved a before front known counted mode sent
    split
    · unfold Account.Kept at moved ⊢
      rw [Account.counter_updateIngressAdmission, (updateIngressAdmission_booked _ _ _).held]
      exact moved
    · exact moved

theorem doHierQRR_preserves {I : State n → Prop} {moves : List (State.Move n)}
    (step : cfg.fcMode = .congestionIsolation → ∀ s t k it nextQ, I s →
      s.hierMove cfg k it nextQ = .ok t → I t)
    (start : I s) (call : s.doHierQRR cfg moves = .ok t) : I t := by
  unfold State.doHierQRR at call
  split at call
  · rename_i mode
    exact foldlM_preserves (fun m _ s t before moved =>
      step mode s t m.1 m.2.1 m.2.2 before moved) start call
  · cases call
    exact start

/-! ### Floodgate -/

theorem releaseVoq_cases (cfg : Config n) (s : State n) (k : ℕ) (it : Item n) (toCache : Bool) :
    s.releaseVoq cfg k it toCache = s ∨ (s.held[k]? = some it ∧ it.place = .voq ∧
      ((cfg.usePortWin = true ∧ s.releaseVoq cfg k it toCache =
        (s.popVoq k it).holdCache it.dev it.q it.packet) ∨ s.releaseVoq cfg k it toCache =
          (s.popVoq k it).switchSend cfg it.dev it.q false it.packet)) := by
  unfold State.releaseVoq
  split
  · rename_i here
    refine .inr ⟨here.1, here.2, ?_⟩
    split
    · rename_i port
      exact .inl ⟨(Bool.and_eq_true _ _ ▸ port).1, rfl⟩
    · exact .inr rfl
  · exact .inl rfl

theorem releaseCache_cases (cfg : Config n) (s : State n) (k : ℕ) (it : Item n) :
    s.releaseCache cfg k it = s ∨ (s.held[k]? = some it ∧ it.place = .cache ∧
      s.releaseCache cfg k it = (s.popCache k it).switchSend cfg it.dev it.q false it.packet) := by
  unfold State.releaseCache
  split
  · rename_i here
    exact .inr ⟨here.1, here.2, rfl⟩
  · exact .inl rfl

theorem waiting_stored (h : Sound cfg s) {k : ℕ} {it : Item n} (at_k : s.held[k]? = some it)
    (place : it.place ≠ .queue) : Stored cfg s it := by
  rcases h.items it (List.mem_of_getElem? at_k) with frame | stored
  · exact absurd frame.place place
  · exact stored

theorem Stored.sent {it : Item n} (h : Stored cfg s it) (place : it.place ≠ .queue)
    (len : t.egressLen = s.egressLen) (queues : t.nQueue = s.nQueue) :
    Stored cfg t ⟨it.dev, it.q, .queue, false, it.packet⟩ where
  inDev := h.inDev
  notSkipped := h.notSkipped
  queue := h.queue.trans_le (congrFun len _).ge
  range := h.range.trans_le (congrFun queues _).ge
  counted := fun _ => h.counted (h.place place)
  place := fun away => absurd rfl away
  cache := by simp

theorem sound_releaseVoq (h : Sound cfg s) (k : ℕ) (it : Item n) (toCache : Bool) :
    Sound cfg (s.releaseVoq cfg k it toCache) := by
  rcases releaseVoq_cases cfg s k it toCache with same | ⟨at_k, place, ⟨port, same⟩ | same⟩
  · rw [same]
    exact h
  · have away : it.place ≠ .queue := by rw [place]; nofun
    have stored := waiting_stored h at_k away
    rw [same]
    have entry : Stored cfg (s.popVoq k it) ⟨it.dev, it.q, .cache, false, it.packet⟩ :=
      ⟨stored.inDev, stored.notSkipped, stored.queue, stored.range,
        fun _ => stored.counted (stored.place away), fun _ => rfl, fun _ => port⟩
    exact sound_append (sound_popVoq h at_k place) entry (by simp) rfl ⟨rfl, rfl, rfl, rfl⟩
  · have stored := waiting_stored h at_k (by simp [place])
    rw [same]
    exact sound_switchSend (sound_popVoq h at_k place) (stored.sent (by simp [place]) rfl rfl)

theorem kept_releaseVoq (h : Sound cfg s) {a : Account n} (before : a.Kept cfg s) {k : ℕ}
    {it : Item n} {toCache : Bool} (room : (s.releaseVoq cfg k it toCache).refused = false) :
    a.Kept cfg (s.releaseVoq cfg k it toCache) := by
  rcases releaseVoq_cases cfg s k it toCache with same | ⟨at_k, place, ⟨port, same⟩ | same⟩
  · rw [same]
    exact before
  · have stored := waiting_stored h at_k (by simp [place])
    rw [same]
    exact Account.kept_voqToCache a before at_k place (stored.place (by simp [place]))
  · have stored := waiting_stored h at_k (by simp [place])
    rw [same] at room ⊢
    exact Account.kept_voqToQueue a before at_k place (stored.place (by simp [place]))
      (switchSend_sent stored.inDev room)

theorem sound_releaseCache (h : Sound cfg s) (k : ℕ) (it : Item n) :
    Sound cfg (s.releaseCache cfg k it) := by
  rcases releaseCache_cases cfg s k it with same | ⟨at_k, place, same⟩
  · rw [same]
    exact h
  · have stored := waiting_stored h at_k (by simp [place])
    rw [same]
    exact sound_switchSend (sound_popCache h at_k place) (stored.sent (by simp [place]) rfl rfl)

theorem kept_releaseCache (h : Sound cfg s) {a : Account n} (before : a.Kept cfg s) {k : ℕ}
    {it : Item n}
    (room : (s.releaseCache cfg k it).refused = false) : a.Kept cfg (s.releaseCache cfg k it) := by
  rcases releaseCache_cases cfg s k it with same | ⟨at_k, place, same⟩
  · rw [same]
    exact before
  · have stored := waiting_stored h at_k (by simp [place])
    rw [same] at room ⊢
    exact Account.kept_cacheToQueue a before at_k place (stored.place (by simp [place]))
      (switchSend_sent stored.inDev room)

/-! ### New queues -/

theorem sound_registerNewQ (h : Sound cfg s) (dev : Fin n) : Sound cfg (s.registerNewQ dev) := by
  have queues : ∀ i, s.nQueue i ≤ (s.registerNewQ dev).nQueue i := by
    intro i
    simp only [State.registerNewQ, Function.update_apply]
    split
    · rename_i here
      rw [here]
      exact Nat.le_succ _
    · exact le_refl _
  refine ⟨h.queued, fun i => (h.nQueue i).trans_le (queues i), fun it member => ?_⟩
  refine (h.items it member).imp_right fun stored => stored.mono (fun i => ?_) queues
  simp only [State.registerNewQ, Function.update_apply]
  split
  · rename_i here
    rw [here]
    exact le_max_left _ _
  · exact le_refl _

theorem kept_registerNewQ {a : Account n} (before : a.Kept cfg s) (dev : Fin n) :
    a.Kept cfg (s.registerNewQ dev) := by
  unfold Account.Kept at before ⊢
  cases a <;> exact before

/-! ### The loss of a link -/

theorem takeDown_queued (h : s.Queued cfg) (dev : Fin n) (limited : Item n → Bool) :
    (s.takeDown cfg dev limited).Queued cfg := by
  have total := h.le dev
  have drained : ∀ (w : Item n → Bool), tally Item.size w s.held ≤ 2 ^ 31 →
    ∀ c, c = tally Item.size w s.held →
      sub32 c (tally Item.size (fun it => w it && State.drains cfg dev limited it) s.held) =
        tally Item.size w (s.held.filter fun it => !State.drains cfg dev limited it) := by
    intro w small c same
    have split := tally_filter_not (w := Item.size) (p := w) (q := State.drains cfg dev limited)
      (l := s.held)
    rw [same]
    unfold sub32
    omega
  have untouched : ∀ (w : Item n → Bool), (∀ it, w it = true → it.dev ≠ dev) →
      tally Item.size w (s.held.filter fun it => !State.drains cfg dev limited it) =
        tally Item.size w s.held := by
    intro w elsewhere
    rw [tally_filter]
    refine tally_congr fun it _ => ?_
    cases passes : w it with
    | false => rfl
    | true => simp [State.drains, elsewhere it passes]
  refine ⟨fun i q => ?_, fun i => ?_, fun i => ?_⟩
  · simp only [State.takeDown]
    split
    · rename_i here
      subst here
      have below := queued_le h i q
      rw [← drained (Item.queued i q) (by rw [← h.inQueue_eq]; omega) _ (h.inQueue_eq i q)]
      refine congrArg _ (tally_congr fun it _ => ?_)
      simp only [State.drains, Item.queued]
      grind
    · rename_i other
      rw [untouched _ fun it passes => ?_, h.inQueue_eq]
      simp only [Item.queued, Bool.and_eq_true, decide_eq_true_eq] at passes
      exact fun same => other (passes.1.2.symm.trans same)
  · simp only [State.takeDown, Function.update_apply]
    split
    · rename_i here
      subst here
      rw [← drained (Item.queuedOn i) (by rw [← h.total_eq]; omega) _ (h.total_eq i)]
      refine congrArg _ (tally_congr fun it _ => ?_)
      simp only [State.drains, Item.queuedOn]
      grind
    · rename_i other
      rw [untouched _ fun it passes => ?_, h.total_eq]
      simp only [Item.queuedOn, Bool.and_eq_true, decide_eq_true_eq] at passes
      exact fun same => other (passes.2.symm.trans same)
  · simp only [State.takeDown, Function.update_apply]
    have bound := h.bound i
    split
    · rename_i here
      subst here
      have part : tally Item.size (State.drains cfg i limited) s.held ≤ s.bytesInQueueTotal i := by
        rw [h.total_eq]
        refine tally_mono fun it _ passes => ?_
        simp only [State.drains, Bool.and_eq_true, decide_eq_true_eq] at passes
        simp [Item.queuedOn, passes.1.1.1, passes.1.1.2]
      unfold sub32
      omega
    · exact bound

theorem sound_takeDown (h : Sound cfg s) (dev : Fin n) (limited : Item n → Bool) :
    Sound cfg (s.takeDown cfg dev limited) :=
  ⟨takeDown_queued h.queued dev limited, h.nQueue,
    items_subset h (fun _ member => (List.mem_filter.mp member).1) rfl rfl⟩

/-- Where only control frames are drained, nothing that counts is lost. -/
theorem takeDown_tally (h : Sound cfg s) {w : Item n → ℕ} {p : Item n → Bool} {dev : Fin n}
    {limited : Item n → Bool}
    (frames : ∀ it ∈ s.held, State.drains cfg dev limited it = true → it.packet.inDev = none)
    (skips : ∀ it : Item n, it.IsFrame cfg → p it = false) :
    tally w p (s.takeDown cfg dev limited).held = tally w p s.held := by
  simp only [State.takeDown]
  rw [tally_filter]
  refine tally_congr fun it member => ?_
  cases drained : State.drains cfg dev limited it with
  | false => simp
  | true =>
    rcases h.items it member with frame | stored
    · rw [skips it frame]
      rfl
    · have none := frames it member drained
      have some := stored.inDev
      rw [none] at some
      cases some

theorem kept_takeDown (h : Sound cfg s) {a : Account n} (before : a.Kept cfg s) {dev : Fin n}
    {limited : Item n → Bool}
    (frames : ∀ it ∈ s.held, State.drains cfg dev limited it = true → it.packet.inDev = none) :
    a.Kept cfg (s.takeDown cfg dev limited) := by
  refine keeps_congr ?_ (takeDown_tally h frames fun _ => Account.test_frame a)
  unfold Account.Kept at before
  cases a <;> exact before

/-! ### Any step -/

namespace Event

/-- The switch does not transmit a SYN of its own. -/
def NoSyn (s : State n) : Event n → Prop
  | .transmit k it _ => AtFront s k it → it.packet.inDev = none → it.packet.l3Prot ≠ .switchPsn
  | _ => True

/-- No link is taken down while packets that have come in wait to be drained. -/
def NoLoss (cfg : Config n) (s : State n) : Event n → Prop
  | .takeDown dev limited =>
      ∀ it ∈ s.held, State.drains cfg dev limited it = true → it.packet.inDev = none
  | _ => True

/-- A packet that is transmitted leaves the account it has entered. -/
def Settles (cfg : Config n) (s : State n) (a : Account n) : Event n → Prop
  | .transmit k it _ => AtFront s k it → it.packet.inDev.isSome = true → a.Settles cfg it
  | _ => True

end Event

theorem sound_step (h : Sound cfg s) {ev : Event n} (call : s.step cfg ev = .ok t) :
    Sound cfg t := by
  cases ev with
  | arrive p inDev dev q ch => exact sound_sendToDev h call
  | transmit k it flowId => exact sound_transmit h call
  | hierRR moves =>
      exact doHierQRR_preserves (fun _ _ _ _ _ _ before moved => sound_hierMove before moved) h call
  | releaseVoq k it toCache =>
    cases call
    exact sound_releaseVoq h k it toCache
  | releaseCache k it =>
    cases call
    exact sound_releaseCache h k it
  | sendFrame dev p =>
    cases call
    exact sound_quiet h (sendFrame_quiet dev p)
  | registerQ dev =>
    cases call
    exact sound_registerNewQ h dev
  | takeDown dev limited =>
    cases call
    exact sound_takeDown h dev limited

theorem kept_step (h : Sound cfg s) {a : Account n} (before : a.Kept cfg s) {ev : Event n}
    (noSyn : ev.NoSyn s)
    (noLoss : ev.NoLoss cfg s) (settles : ev.Settles cfg s a) (call : s.step cfg ev = .ok t)
    (room : t.refused = false) : a.Kept cfg t := by
  cases ev with
  | arrive p inDev dev q ch => exact kept_sendToDev before call room
  | transmit k it flowId => exact kept_transmit h before noSyn settles call
  | hierRR moves =>
    have move : ∀ (u v : State n) (k : ℕ) (it : Item n) (nextQ : ℕ), cfg.fcMode =
      .congestionIsolation →
        Sound cfg u ∧ a.Kept cfg u → u.hierMove cfg k it nextQ = .ok v → Sound cfg v ∧
          a.Kept cfg v :=
      fun _ _ _ _ _ mode both moved =>
        ⟨sound_hierMove both.1 moved, kept_hierMove both.1 mode both.2 moved⟩
    exact (doHierQRR_preserves (fun mode u v k it nextQ => move u v k it nextQ mode)
      ⟨h, before⟩ call).2
  | releaseVoq k it toCache =>
    cases call
    exact kept_releaseVoq h before room
  | releaseCache k it =>
    cases call
    exact kept_releaseCache h before room
  | sendFrame dev p =>
    cases call
    exact Account.kept_quiet a (sendFrame_quiet dev p) before
  | registerQ dev =>
    cases call
    exact kept_registerNewQ before dev
  | takeDown dev limited =>
    cases call
    exact kept_takeDown h before noLoss

/-! ### Refusals -/

theorem refused_switchSend {dev : Fin n} {q : ℕ} {counted : Bool} {p : Packet n}
    (room : (s.switchSend cfg dev q counted p).refused = false) : s.refused = false := by
  rcases switchSend_cases cfg s dev q counted p with refused | sent
  · rw [refused] at room
    exact (Bool.or_eq_false_iff.mp room).1
  · obtain ⟨-, same⟩ := doEnqueue_cases sent
    rw [same] at room
    exact room

theorem refused_sendToDev {inDev dev : Fin n} {q : ℕ} {p : Packet n} {ch : Choice}
    (call : s.sendToDev cfg inDev dev q p ch = .ok t) (room : t.refused = false) :
    s.refused = false := by
  rcases sendToDev_cases call with ⟨quiet, -⟩ | ⟨admitted, enters, forwarded⟩
  · exact quiet.refused.symm.trans room
  · have matched : Quiet cfg s (s.matchFlow cfg dev q (p.arrived inDev)) := matchFlow_quiet _ _ _
    refine matched.refused.symm.trans ?_
    rcases forward_cases forwarded with ⟨-, rfl⟩ | ⟨-, rfl⟩ | ⟨-, u, quiet, rfl, -⟩
    · exact (charge_booked inDev dev q (p.arrived inDev) admitted).refused.symm.trans room
    · exact (charge_booked inDev dev q (p.arrived inDev) admitted).refused.symm.trans room
    · exact (chargeAll_booked inDev dev q (p.arrived inDev) admitted ch.bfcPause).refused.symm.trans
        (quiet.refused.symm.trans (refused_switchSend room))

theorem refused_transmit (h : Sound cfg s) {k : ℕ} {it : Item n} {flowId : Option (Fin n)}
    (call : s.dequeueAndTransmit cfg k it flowId = .ok t) (room : t.refused = false) :
    s.refused = false := by
  rcases transmit_cases h call with rfl | ⟨-, -, rfl⟩ | ⟨inDev, -, -, -, -, -, quiet⟩
  · exact room
  · exact room
  · have discharged := quiet.refused.symm.trans room
    rw [(dischargeAll_booked _ _ _ _).refused] at discharged
    exact discharged

theorem hierMove_refused {k : ℕ} {it : Item n} {nextQ : ℕ}
    (call : s.hierMove cfg k it nextQ = .ok t) : t.refused = s.refused := by
  rcases hierMove_cases call with rfl | ⟨inDev, u, -, -, -, -, -, -, sent, rfl⟩
  · rfl
  · obtain ⟨-, same⟩ := doEnqueue_cases sent
    have moved : u.refused = s.refused := by rw [same]; rfl
    split
    · rw [(updateIngressAdmission_booked _ _ _).refused]
      exact moved
    · exact moved

theorem doHierQRR_refused {moves : List (State.Move n)} (call : s.doHierQRR cfg moves = .ok t) :
    t.refused = s.refused :=
  doHierQRR_preserves (fun _ _ _ _ _ _ before moved =>
    (hierMove_refused moved).trans before) rfl call

theorem refused_step (h : Sound cfg s) {ev : Event n} (call : s.step cfg ev = .ok t)
    (room : t.refused = false) : s.refused = false := by
  cases ev with
  | arrive p inDev dev q ch => exact refused_sendToDev call room
  | transmit k it flowId => exact refused_transmit h call room
  | hierRR moves =>
    rw [← doHierQRR_refused call]
    exact room
  | releaseVoq k it toCache =>
    cases call
    rcases releaseVoq_cases cfg s k it toCache with
      same | ⟨-, -, ⟨-, same⟩ | same⟩ <;> rw [same] at room
    · exact room
    · exact room
    · exact (refused_switchSend room : (s.popVoq k it).refused = false)
  | releaseCache k it =>
    cases call
    rcases releaseCache_cases cfg s k it with same | ⟨-, -, same⟩ <;> rw [same] at room
    · exact room
    · exact (refused_switchSend room : (s.popCache k it).refused = false)
  | sendFrame dev p =>
    cases call
    exact Eq.trans (sendFrame_quiet dev p).refused.symm room
  | registerQ dev =>
    cases call
    exact room
  | takeDown dev limited =>
    cases call
    exact room

theorem kept_reachable {a : Account n} {allowed : State n → Event n → Prop}
    (ok : ∀ s ev, Sound cfg s → allowed s ev → ev.NoSyn s ∧ ev.NoLoss cfg s ∧ ev.Settles cfg s a)
    (reach : State.Reachable cfg allowed s) : Sound cfg s ∧ (s.refused = false → a.Kept cfg s) := by
  induction reach with
  | initial =>
    refine ⟨sound_initial, fun _ => ?_⟩
    unfold Account.Kept
    cases a <;> exact keeps_nil (by decide)
  | step _ permitted call ih =>
    obtain ⟨sound, kept⟩ := ih
    obtain ⟨noSyn, noLoss, settles⟩ := ok _ _ sound permitted
    refine ⟨sound_step sound call, fun room => ?_⟩
    exact kept_step sound (kept (refused_step sound call room)) noSyn noLoss settles call room

end Buffer

end Pyrrha

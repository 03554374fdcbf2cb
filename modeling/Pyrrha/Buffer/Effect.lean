import Pyrrha.Buffer.Run

/-!
What each function does to the counters of bytes and packets, said once. Most of them only hand
control frames to devices and set flags (`Quiet`); the others charge a packet, discharge one, or
move one.
-/

namespace Pyrrha
open Lib

namespace Buffer

variable {n : ℕ} {cfg : Config n} {s t u : State n}

namespace Item

/-- A packet in `m_queues[q]` of `dev`. -/
def queued (dev : Fin n) (q : ℕ) (it : Item n) : Bool :=
  decide (it.place = .queue) && decide (it.dev = dev) && decide (it.q = q)

/-- A packet in any queue of `dev`. -/
def queuedOn (dev : Fin n) (it : Item n) : Bool :=
  decide (it.place = .queue) && decide (it.dev = dev)

/-- A frame the switch has generated; SwitchACKs and SYNs are Floodgate's. -/
structure IsFrame (cfg : Config n) (it : Item n) : Prop where
  place : it.place = .queue
  queue : it.q = 0
  inDev : it.packet.inDev = none
  counted : it.counted = false
  prot : it.packet.l3Prot = .pfc ∨ it.packet.l3Prot = .ci ∨
    (cfg.fcMode = .floodgate ∧ (it.packet.l3Prot = .switchAck ∨ it.packet.l3Prot = .switchPsn))

end Item

/-! ### The byte counters of BEgressQueue -/

/-- The byte counters of every `BEgressQueue` are the bytes in it, and within its limit. -/
structure Queues (cfg : Config n) (held : List (Item n)) (inQueue : Fin n → ℕ → ℕ)
    (total : Fin n → ℕ) : Prop where
  inQueue_eq : ∀ dev q, inQueue dev q = tally Item.size (Item.queued dev q) held
  total_eq : ∀ dev, total dev = tally Item.size (Item.queuedOn dev) held
  bound : ∀ dev, total dev = 0 ∨ total dev < cfg.maxBytes

abbrev State.Queued (cfg : Config n) (s : State n) : Prop :=
  Queues cfg s.held s.bytesInQueue s.bytesInQueueTotal

theorem size_pos (it : Item n) : 0 < it.size := it.packet.size_pos

theorem size_lt (it : Item n) : it.size < 2 ^ 31 := it.packet.size_lt

theorem Queues.le {held : List (Item n)} {inQueue : Fin n → ℕ → ℕ} {total : Fin n → ℕ}
    (h : Queues cfg held inQueue total) (dev : Fin n) : total dev ≤ 2 ^ 31 := by
  have limit := cfg.maxBytes_le
  have bound := h.bound dev
  omega

theorem queued_le (h : s.Queued cfg) (dev : Fin n) (q : ℕ) :
    s.bytesInQueue dev q ≤ s.bytesInQueueTotal dev := by
  rw [h.inQueue_eq, h.total_eq]
  refine tally_mono fun it _ passes => ?_
  simp only [Item.queued, Bool.and_eq_true] at passes
  simp [Item.queuedOn, of_decide_eq_true passes.1.1, of_decide_eq_true passes.1.2]

theorem doEnqueue_cases {dev : Fin n} {q : ℕ} {counted : Bool} {p : Packet n}
    (h : s.doEnqueue cfg dev q counted p = some t) :
    add32 (s.bytesInQueueTotal dev) p.size < cfg.maxBytes ∧ t = { s with
      held := s.held ++ [⟨dev, q, .queue, counted, p⟩]
      bytesInQueue := update₂ s.bytesInQueue dev q (add32 (s.bytesInQueue dev q) p.size)
      bytesInQueueTotal :=
        Function.update s.bytesInQueueTotal dev (add32 (s.bytesInQueueTotal dev) p.size) } := by
  unfold State.doEnqueue at h
  split at h
  · rename_i room
    exact ⟨room, (Option.some.inj h).symm⟩
  · cases h

theorem doEnqueue_queued {dev : Fin n} {q : ℕ} {counted : Bool} {p : Packet n} (h : s.Queued cfg)
    (call : s.doEnqueue cfg dev q counted p = some t) : t.Queued cfg := by
  obtain ⟨room, rfl⟩ := doEnqueue_cases call
  have total := h.le dev
  have small := p.size_lt
  have below := queued_le h dev q
  have exactTotal : add32 (s.bytesInQueueTotal dev) p.size = s.bytesInQueueTotal dev + p.size :=
    Nat.mod_eq_of_lt (by omega)
  have exactQueue : add32 (s.bytesInQueue dev q) p.size = s.bytesInQueue dev q + p.size :=
    Nat.mod_eq_of_lt (by omega)
  refine ⟨fun dev' q' => ?_, fun dev' => ?_, fun dev' => ?_⟩
  · dsimp only
    rw [tally_concat, ← h.inQueue_eq, update₂_apply, exactQueue]
    by_cases here : dev' = dev ∧ q' = q
    · obtain ⟨rfl, rfl⟩ := here
      simp [Item.queued, Item.size]
    · have other : ¬(dev = dev' ∧ q = q') := fun e => here ⟨e.1.symm, e.2.symm⟩
      simp [Item.queued, here, other]
  · dsimp only
    rw [tally_concat, ← h.total_eq, Function.update_apply, exactTotal]
    by_cases here : dev' = dev
    · subst here
      simp [Item.queuedOn, Item.size]
    · have other : ¬dev = dev' := fun e => here e.symm
      simp [Item.queuedOn, here, other]
  · dsimp only
    rw [Function.update_apply]
    split
    · exact .inr room
    · exact h.bound dev'

theorem switchSend_queued {dev : Fin n} {q : ℕ} {counted : Bool} {p : Packet n} (h : s.Queued cfg) :
    (s.switchSend cfg dev q counted p).Queued cfg := by
  unfold State.switchSend
  cases call : s.doEnqueue cfg dev q counted p with
  | none => exact h
  | some t => exact doEnqueue_queued h call

theorem popQueue_queued {k : ℕ} {it : Item n} (h : s.Queued cfg) (at_k : s.held[k]? = some it)
    (place : it.place = .queue) : (s.popQueue k it).Queued cfg := by
  have small := size_lt it
  have total := h.le it.dev
  have below := queued_le h it.dev it.q
  have inTotal : it.size ≤ s.bytesInQueue it.dev it.q := by
    rw [h.inQueue_eq]
    exact le_tally (List.mem_of_getElem? at_k) (by simp [Item.queued, place])
  have exactTotal : sub32 (s.bytesInQueueTotal it.dev) it.size =
      s.bytesInQueueTotal it.dev - it.size := by
    unfold sub32; omega
  have exactQueue : sub32 (s.bytesInQueue it.dev it.q) it.size =
      s.bytesInQueue it.dev it.q - it.size := by
    unfold sub32; omega
  refine ⟨fun dev q => ?_, fun dev => ?_, fun dev => ?_⟩
  · have removed := tally_eraseIdx (w := Item.size) (p := Item.queued dev q) at_k
    have before := h.inQueue_eq dev q
    simp only [State.popQueue, update₂_apply, exactQueue]
    by_cases here : dev = it.dev ∧ q = it.q
    · obtain ⟨rfl, rfl⟩ := here
      simp only [Item.queued, place, decide_true, Bool.and_self, if_true] at removed before ⊢
      simp only [and_self, if_true]
      omega
    · have other : ¬(it.dev = dev ∧ it.q = q) := fun e => here ⟨e.1.symm, e.2.symm⟩
      have skipped : Item.queued dev q it = false := by simpa [Item.queued, place] using other
      simp only [skipped, Bool.false_eq_true, if_false, Nat.add_zero] at removed
      rw [if_neg here, removed, before]
  · have removed := tally_eraseIdx (w := Item.size) (p := Item.queuedOn dev) at_k
    have before := h.total_eq dev
    simp only [State.popQueue, Function.update_apply, exactTotal]
    by_cases here : dev = it.dev
    · subst here
      simp only [Item.queuedOn, place, decide_true, Bool.and_self, if_true] at removed before ⊢
      omega
    · have skipped : Item.queuedOn dev it = false := by
        simpa [Item.queuedOn, place] using fun e : it.dev = dev => here e.symm
      simp only [skipped, Bool.false_eq_true, if_false, Nat.add_zero] at removed
      rw [if_neg here, removed, before]
  · simp only [State.popQueue, Function.update_apply]
    have bound := h.bound dev
    split
    · rename_i here
      subst here
      omega
    · exact bound

/-! ### Control frames and flags -/

/-- From `s` to `t` the switch only handed control frames to devices, set pause flags, and made
empty flow entries. -/
structure Quiet (cfg : Config n) (s t : State n) : Prop where
  counters : t = { s with
    held := t.held
    bytesInQueue := t.bytesInQueue
    bytesInQueueTotal := t.bytesInQueueTotal
    paused := t.paused
    flowTb := t.flowTb
    pfcFrames := t.pfcFrames
    refused := t.refused }
  flows : ∀ dev fid, (t.flowTb dev fid).getD 0 = (s.flowTb dev fid).getD 0
  held : ∃ frames, t.held = s.held ++ frames ∧ ∀ it ∈ frames, it.IsFrame cfg
  refused : t.refused = s.refused
  queued : s.Queued cfg → t.Queued cfg

namespace Quiet

theorem refl (s : State n) : Quiet cfg s s where
  counters := rfl
  flows := fun _ _ => rfl
  held := ⟨[], (List.append_nil _).symm, fun _ h => absurd h List.not_mem_nil⟩
  refused := rfl
  queued := id

theorem trans (first : Quiet cfg s t) (second : Quiet cfg t u) : Quiet cfg s u where
  counters := second.counters.trans (by rw [first.counters])
  flows := fun dev fid => (second.flows dev fid).trans (first.flows dev fid)
  held := by
    obtain ⟨before, heldBefore, framesBefore⟩ := first.held
    obtain ⟨after, heldAfter, framesAfter⟩ := second.held
    refine ⟨before ++ after, by rw [heldAfter, heldBefore, List.append_assoc], fun it member => ?_⟩
    rcases List.mem_append.mp member with old | new
    · exact framesBefore it old
    · exact framesAfter it new
  refused := second.refused.trans first.refused
  queued := fun h => second.queued (first.queued h)

theorem egressBytes (h : Quiet cfg s t) : t.egressBytes = s.egressBytes :=
  (congrArg State.egressBytes h.counters :)

theorem egressLen (h : Quiet cfg s t) : t.egressLen = s.egressLen :=
  (congrArg State.egressLen h.counters :)

theorem sharedUsedBytes (h : Quiet cfg s t) : t.sharedUsedBytes = s.sharedUsedBytes :=
  (congrArg State.sharedUsedBytes h.counters :)

theorem hdrmBytes (h : Quiet cfg s t) : t.hdrmBytes = s.hdrmBytes :=
  (congrArg State.hdrmBytes h.counters :)

theorem ingressBytes (h : Quiet cfg s t) : t.ingressBytes = s.ingressBytes :=
  (congrArg State.ingressBytes h.counters :)

theorem bufferingBytes (h : Quiet cfg s t) : t.bufferingBytes = s.bufferingBytes :=
  (congrArg State.bufferingBytes h.counters :)

theorem bufferingEgressBytes (h : Quiet cfg s t) : t.bufferingEgressBytes =
    s.bufferingEgressBytes :=
  (congrArg State.bufferingEgressBytes h.counters :)

theorem pauseCounter (h : Quiet cfg s t) : t.pauseCounter = s.pauseCounter :=
  (congrArg State.pauseCounter h.counters :)

theorem bytes (h : Quiet cfg s t) : t.bytes = s.bytes := (congrArg State.bytes h.counters :)

theorem buffering (h : Quiet cfg s t) : t.buffering = s.buffering :=
  (congrArg State.buffering h.counters :)

theorem voqBytes (h : Quiet cfg s t) : t.voqBytes = s.voqBytes :=
  (congrArg State.voqBytes h.counters :)

theorem egressCacheBytes (h : Quiet cfg s t) : t.egressCacheBytes = s.egressCacheBytes :=
  (congrArg State.egressCacheBytes h.counters :)

theorem nQueue (h : Quiet cfg s t) : t.nQueue = s.nQueue := (congrArg State.nQueue h.counters :)

theorem linkUp (h : Quiet cfg s t) : t.linkUp = s.linkUp := (congrArg State.linkUp h.counters :)

theorem flags (paused : Fin n → ℕ → Bool) (pfcFrames : List (Fin n × ℕ × Bool)) :
    Quiet cfg s { s with paused := paused, pfcFrames := pfcFrames } where
  counters := rfl
  flows := fun _ _ => rfl
  held := ⟨[], (List.append_nil _).symm, fun _ h => absurd h List.not_mem_nil⟩
  refused := rfl
  queued := id

end Quiet

theorem switchSend_cases (cfg : Config n) (s : State n) (dev : Fin n) (q : ℕ) (counted : Bool)
    (p : Packet n) :
    s.switchSend cfg dev q counted p = { s with refused := s.refused || p.inDev.isSome } ∨
      s.doEnqueue cfg dev q counted p = some (s.switchSend cfg dev q counted p) := by
  unfold State.switchSend
  cases call : s.doEnqueue cfg dev q counted p with
  | none => exact .inl rfl
  | some t => exact .inr rfl

theorem switchSend_frame {dev : Fin n} {p : Packet n} (inDev : p.inDev = none)
    (prot : p.l3Prot = .pfc ∨ p.l3Prot = .ci ∨
      (cfg.fcMode = .floodgate ∧ (p.l3Prot = .switchAck ∨ p.l3Prot = .switchPsn))) :
    Quiet cfg s (s.switchSend cfg dev 0 false p) := by
  have queued : s.Queued cfg → (s.switchSend cfg dev 0 false p).Queued cfg := switchSend_queued
  rcases switchSend_cases cfg s dev 0 false p with refused | sent
  · rw [refused, inDev]
    exact ⟨rfl, fun _ _ => rfl,
      ⟨[], (List.append_nil _).symm, fun _ h => absurd h List.not_mem_nil⟩, Bool.or_false _, id⟩
  · obtain ⟨-, same⟩ := doEnqueue_cases sent
    rw [same] at queued ⊢
    refine ⟨rfl, fun _ _ => rfl, ⟨[⟨dev, 0, .queue, false, p⟩], rfl, fun it member => ?_⟩,
      rfl, queued⟩
    rw [List.mem_singleton.mp member]
    exact ⟨rfl, rfl, inDev, rfl, prot⟩

theorem sendPfc_quiet (dev : Fin n) (idx : ℕ) (pause : Bool) :
    Quiet cfg s (s.sendPfc cfg dev idx pause) :=
  (Quiet.flags s.paused _).trans (switchSend_frame rfl (.inl rfl))

theorem setPause_quiet (dev : Fin n) (idx : ℕ) : Quiet cfg s (s.setPause dev idx) := .flags _ _

theorem setResume_quiet (dev : Fin n) (idx : ℕ) : Quiet cfg s (s.setResume dev idx) := .flags _ _

theorem checkAndSendPfc_quiet (dev : Fin n) (idx : ℕ) :
    Quiet cfg s (s.checkAndSendPfc cfg dev idx) := by
  unfold State.checkAndSendPfc
  split
  · exact (sendPfc_quiet dev idx true).trans (setPause_quiet dev idx)
  · exact .refl s

theorem checkAndSendResume_quiet (dev : Fin n) (idx : ℕ) :
    Quiet cfg s (s.checkAndSendResume cfg dev idx) := by
  unfold State.checkAndSendResume
  split
  · exact (sendPfc_quiet dev idx false).trans (setResume_quiet dev idx)
  · exact .refl s

theorem resumeDst_quiet (dst : ℕ) (i : Fin n) : Quiet cfg s (s.resumeDst cfg dst i) := by
  unfold State.resumeDst
  split
  · exact (sendPfc_quiet i dst false).trans (setResume_quiet i dst)
  · exact .refl s

theorem resumeDst_fold_quiet (dst : ℕ) (l : List (Fin n)) :
    Quiet cfg s (l.foldl (State.resumeDst cfg dst) s) := by
  induction l generalizing s with
  | nil => exact .refl s
  | cons i rest ih => exact (resumeDst_quiet dst i).trans ih

theorem switchSend_paused {dev : Fin n} {q : ℕ} {counted : Bool} {p : Packet n} :
    (s.switchSend cfg dev q counted p).paused = s.paused := by
  rcases switchSend_cases cfg s dev q counted p with refused | sent
  · rw [refused]
  · obtain ⟨-, same⟩ := doEnqueue_cases sent
    rw [same]

theorem sendPfc_paused {dev : Fin n} {idx : ℕ} {pause : Bool} :
    (s.sendPfc cfg dev idx pause).paused = s.paused :=
  switchSend_paused

theorem setPause_paused (i : Fin n) (d : ℕ) : (s.setPause i d).paused = update₂ s.paused i d true :=
  rfl

theorem setResume_paused (i : Fin n) (d : ℕ) : (s.setResume i d).paused =
    update₂ s.paused i d false := rfl

theorem resumeDst_paused (dst : ℕ) (i j : Fin n) (d : ℕ) :
    (s.resumeDst cfg dst i).paused j d = if j = i ∧ d = dst then false else s.paused j d := by
  unfold State.resumeDst
  split
  · rw [setResume_paused, sendPfc_paused, update₂_apply]
  · rename_i flag
    split
    · rename_i here
      rw [here.1, here.2]
      exact Bool.eq_false_of_not_eq_true flag
    · rfl

theorem resumeDst_fold_paused (dst : ℕ) (l : List (Fin n)) (j : Fin n) (d : ℕ) :
    (l.foldl (State.resumeDst cfg dst) s).paused j d = if j ∈ l ∧ d = dst then false
      else s.paused j d := by
  induction l generalizing s with
  | nil => simp
  | cons i rest ih =>
    rw [List.foldl_cons, ih, resumeDst_paused]
    grind

theorem matchFlow_quiet (dev : Fin n) (q : ℕ) (p : Packet n) :
    Quiet cfg s (s.matchFlow cfg dev q p) := by
  unfold State.matchFlow
  split
  · rename_i fresh
    refine ⟨rfl, fun dev' fid => ?_,
      ⟨[], (List.append_nil _).symm, fun _ h => absurd h List.not_mem_nil⟩, rfl, id⟩
    simp only [State.setFlow, update₂_apply]
    split
    · rename_i here
      obtain ⟨rfl, rfl⟩ := here
      rw [fresh.2.2]
      rfl
    · rfl
  · exact .refl s

theorem sendFrame_quiet (dev : Fin n) (p : Packet n) : Quiet cfg s (s.sendFrame cfg dev p) := by
  unfold State.sendFrame
  split
  · rename_i prot
    split
    · exact switchSend_frame rfl (.inr (.inl prot))
    · exact .refl s
  · rename_i prot
    split
    · rename_i mode
      exact switchSend_frame rfl (.inr (.inr ⟨mode, .inl prot⟩))
    · exact .refl s
  · rename_i prot
    split
    · rename_i mode
      exact switchSend_frame rfl (.inr (.inr ⟨mode, .inr prot⟩))
    · exact .refl s
  · exact .refl s

/-- From `s` to `t` only counters of buffered bytes and packets changed. -/
structure Booked (s t : State n) : Prop where
  held : t.held = s.held
  bytesInQueue : t.bytesInQueue = s.bytesInQueue
  bytesInQueueTotal : t.bytesInQueueTotal = s.bytesInQueueTotal
  nQueue : t.nQueue = s.nQueue
  linkUp : t.linkUp = s.linkUp
  paused : t.paused = s.paused
  pfcFrames : t.pfcFrames = s.pfcFrames
  refused : t.refused = s.refused
  egressLen : ∀ dev, s.egressLen dev ≤ t.egressLen dev

namespace Booked

theorem refl (s : State n) : Booked s s :=
  ⟨rfl, rfl, rfl, rfl, rfl, rfl, rfl, rfl, fun _ => le_refl _⟩

theorem trans (first : Booked s t) (second : Booked t u) : Booked s u where
  held := second.held.trans first.held
  bytesInQueue := second.bytesInQueue.trans first.bytesInQueue
  bytesInQueueTotal := second.bytesInQueueTotal.trans first.bytesInQueueTotal
  nQueue := second.nQueue.trans first.nQueue
  linkUp := second.linkUp.trans first.linkUp
  paused := second.paused.trans first.paused
  pfcFrames := second.pfcFrames.trans first.pfcFrames
  refused := second.refused.trans first.refused
  egressLen := fun dev => (first.egressLen dev).trans (second.egressLen dev)

theorem queued (h : Booked s t) (before : s.Queued cfg) : t.Queued cfg := by
  unfold State.Queued
  rw [h.held, h.bytesInQueue, h.bytesInQueueTotal]
  exact before

end Booked

/-! ### Arrival -/

namespace Quiet

theorem setFlow (h : Quiet cfg s t) (dev : Fin n) (fid : ℕ) (size : Option ℕ) :
    Quiet cfg (s.setFlow dev fid size) (t.setFlow dev fid size) where
  counters := congrArg (·.setFlow dev fid size) h.counters
  flows := fun dev' fid' => by
    simp only [State.setFlow, update₂_apply]
    split
    · rfl
    · exact h.flows dev' fid'
  held := h.held
  refused := h.refused
  queued := h.queued

theorem setPauseCounter (h : Quiet cfg s t) (dev : Fin n) (q count : ℕ) :
    Quiet cfg (s.setPauseCounter dev q count) (t.setPauseCounter dev q count) where
  counters := congrArg (·.setPauseCounter dev q count) h.counters
  flows := h.flows
  held := h.held
  refused := h.refused
  queued := h.queued

theorem setBuffering (h : Quiet cfg s t) (dev : Fin n) (dst inAll inDev : ℕ) :
    Quiet cfg (s.setBuffering dev dst inAll inDev) (t.setBuffering dev dst inAll inDev) where
  counters := congrArg (·.setBuffering dev dst inAll inDev) h.counters
  flows := h.flows
  held := h.held
  refused := h.refused
  queued := h.queued

end Quiet

theorem setFlow_pauseCounter (dev : Fin n) (fid : ℕ) (size : Option ℕ) :
    (s.setFlow dev fid size).pauseCounter = s.pauseCounter := rfl

/-- The counters that only one `fc_mode` keeps of an arrival. -/
def State.chargeMode (cfg : Config n) (s : State n) (inDev dev : Fin n) (q : ℕ) (p : Packet n)
    (bfcPause : Bool) : State n :=
  if q = 0 then s
  else match cfg.fcMode with
    | .voqDstPfc => s.addBuffering dev p.dst p.size
    | .bfc =>
      let s := s.setFlow dev p.fid (some (add32 ((s.flowTb dev p.fid).getD 0) 1))
      if bfcPause then s.setPauseCounter inDev p.upstreamQ
        (add32 (s.pauseCounter inDev p.upstreamQ) 1) else s
    | _ => s

/-- The packet with the `MetaTag` BFC gives it. -/
def Packet.marked (cfg : Config n) (q : ℕ) (bfcPause : Bool) (p : Packet n) : Packet n :=
  if cfg.fcMode = .bfc ∧ q ≠ 0 then { p with counterIncr := bfcPause } else p

section

variable (q : ℕ) (bfcPause : Bool) (p : Packet n)

@[simp] theorem marked_inDev : (p.marked cfg q bfcPause).inDev = p.inDev := by unfold Packet.marked; split <;> rfl

@[simp] theorem marked_size : (p.marked cfg q bfcPause).size = p.size := by unfold Packet.marked; split <;> rfl

@[simp] theorem marked_dst : (p.marked cfg q bfcPause).dst = p.dst := by unfold Packet.marked; split <;> rfl

@[simp] theorem marked_fid : (p.marked cfg q bfcPause).fid = p.fid := by unfold Packet.marked; split <;> rfl

@[simp] theorem marked_upstreamQ : (p.marked cfg q bfcPause).upstreamQ = p.upstreamQ := by
  unfold Packet.marked; split <;> rfl

@[simp] theorem marked_l3Prot : (p.marked cfg q bfcPause).l3Prot = p.l3Prot := by
  unfold Packet.marked; split <;> rfl

theorem marked_counterIncr (mode : cfg.fcMode = .bfc) (nonzero : q ≠ 0) :
    (p.marked cfg q bfcPause).counterIncr = bfcPause := by
  rw [Packet.marked, if_pos ⟨mode, nonzero⟩]

end

theorem Quiet.chargeMode (h : Quiet cfg s t) (inDev dev : Fin n) (q : ℕ) (p : Packet n)
    (bfcPause : Bool) : Quiet cfg (s.chargeMode cfg inDev dev q p bfcPause)
      (t.chargeMode cfg inDev dev q p bfcPause) := by
  unfold State.chargeMode
  split
  · exact h
  · split
    · simp only [State.addBuffering]
      rw [h.bufferingBytes, h.bufferingEgressBytes]
      exact h.setBuffering _ _ _ _
    · have flow := h.setFlow dev p.fid (some (add32 ((s.flowTb dev p.fid).getD 0) 1))
      dsimp only
      rw [h.flows]
      split
      · rw [flow.pauseCounter]
        exact flow.setPauseCounter _ _ _
      · exact flow
    · exact h

theorem arriveBfc_effect {inDev dev : Fin n} {q : ℕ} {p p' : Packet n} {bfcPause : Bool}
    (mode : cfg.fcMode = .bfc) (h : s.arriveBfc cfg inDev dev q p bfcPause = .ok (t, p')) :
    Quiet cfg (s.chargeMode cfg inDev dev q p bfcPause) t ∧ p' = p.marked cfg q bfcPause := by
  unfold State.arriveBfc at h
  by_cases zero : q = 0
  · rw [if_pos zero] at h
    obtain ⟨rfl, rfl⟩ := Prod.mk.inj (Except.ok.inj h)
    rw [State.chargeMode, if_pos zero]
    exact ⟨.refl s, (if_neg fun both => both.2 zero).symm⟩
  · rw [if_neg zero] at h
    rw [State.chargeMode, if_neg zero, mode]
    have marked : p.marked cfg q bfcPause = { p with counterIncr := bfcPause } :=
      if_pos ⟨mode, zero⟩
    cases found : s.flowTb dev p.fid with
    | none =>
      rw [found] at h
      cases h
    | some size =>
      rw [found] at h
      cases bfcPause with
      | false =>
        obtain ⟨rfl, rfl⟩ := Prod.mk.inj (Except.ok.inj h)
        exact ⟨.refl _, marked.symm⟩
      | true =>
        obtain ⟨rfl, rfl⟩ := Prod.mk.inj (Except.ok.inj h)
        refine ⟨?_, marked.symm⟩
        simp only [Option.getD_some, if_true]
        split
        · exact sendPfc_quiet _ _ _
        · exact .refl _

theorem arriveMode_effect {inDev dev : Fin n} {q : ℕ} {p p' : Packet n} {bfcPause : Bool}
    (h : s.arriveMode cfg inDev dev q p bfcPause = .ok (t, p')) :
    Quiet cfg (s.chargeMode cfg inDev dev q p bfcPause) t ∧ p' = p.marked cfg q bfcPause := by
  unfold State.arriveMode at h
  split at h
  · rename_i mode
    cases h
    refine ⟨?_, by simp [Packet.marked, mode]⟩
    unfold State.chargeMode State.arriveVoqDstPfc
    split
    · exact .refl s
    · rw [mode]
      dsimp only
      split
      · exact (sendPfc_quiet _ _ _).trans (setPause_quiet _ _)
      · exact .refl _
  · rename_i mode
    exact arriveBfc_effect mode h
  · rename_i notVoq notBfc
    cases h
    refine ⟨?_, (if_neg fun both => notBfc both.1).symm⟩
    unfold State.chargeMode
    split
    · exact .refl s
    · split
      · rename_i mode
        exact absurd mode notVoq
      · rename_i mode
        exact absurd mode notBfc
      · exact .refl s

/-- A packet that goes on is counted, may have frames sent ahead of it, and is handed to its output
queue. -/
theorem passToDev_cases {inDev dev : Fin n} {q : ℕ} {p : Packet n} {bfcPause : Bool}
    (h : s.passToDev cfg inDev dev q p bfcPause = .ok t) : ∃ u,
      Quiet cfg ((s.addBytes inDev dev q p.size).chargeMode cfg inDev dev q p bfcPause) u ∧
      State.arriveMode cfg (if cfg.controlled q then
        (s.addBytes inDev dev q p.size).checkAndSendPfc cfg inDev (cfg.pfcFine inDev q p)
        else s.addBytes inDev dev q p.size) inDev dev q p bfcPause =
          .ok (u, p.marked cfg q bfcPause) ∧
      t = u.switchSend cfg dev q true (p.marked cfg q bfcPause) := by
  unfold State.passToDev at h
  obtain ⟨⟨u, p'⟩, mode, h⟩ := bind_ok h
  cases h
  obtain ⟨quiet, rfl⟩ := arriveMode_effect mode
  refine ⟨u, Quiet.trans ?_ quiet, mode, rfl⟩
  apply Quiet.chargeMode
  split
  · exact checkAndSendPfc_quiet _ _
  · exact .refl _

/-- `SendToDev` from the window check on: the packet is held back, or goes to its output queue. -/
theorem forward_cases {inDev dev : Fin n} {q : ℕ} {p : Packet n} {ch : Choice}
    (h : s.forward cfg inDev dev q p ch = .ok t) :
    (State.checkVOQWin cfg p ch.window = .voq ∧ t = s.holdVoq dev q p) ∨
    (State.checkVOQWin cfg p ch.window = .cache ∧ t = s.holdCache dev q p) ∨
    (State.checkVOQWin cfg p ch.window = .pass ∧
      ∃ u, Quiet cfg ((s.addBytes inDev dev q p.size).chargeMode cfg inDev dev q p ch.bfcPause) u ∧
        t = u.switchSend cfg dev q true (p.marked cfg q ch.bfcPause) ∧
        ∃ buffer, t.doStatistics cfg = .ok buffer) := by
  unfold State.forward State.forwardNow at h
  split at h
  · rename_i window
    exact .inl ⟨window, (Except.ok.inj h).symm⟩
  · rename_i window
    exact .inr (.inl ⟨window, (Except.ok.inj h).symm⟩)
  · rename_i window
    obtain ⟨v, passed, h⟩ := bind_ok h
    obtain ⟨w, stays, h⟩ := bind_ok h
    cases stays
    obtain ⟨buffer, statistics, h⟩ := bind_ok h
    cases h
    obtain ⟨u, quiet, -, rfl⟩ := passToDev_cases passed
    exact .inr (.inr ⟨window, u, quiet, rfl, buffer, statistics⟩)

/-- The counters of the admission: of the ingress only if it passed the test. -/
def State.charge (cfg : Config n) (s : State n) (inDev dev : Fin n) (q : ℕ) (p : Packet n)
    (admitted : Bool) : State n :=
  (if admitted then s.chargeIngress cfg inDev q p else s).updateEgressAdmission dev q p.size

theorem charge_true (inDev dev : Fin n) (q : ℕ) (p : Packet n) : s.charge cfg inDev dev q p true =
    (s.chargeIngress cfg inDev q p).updateEgressAdmission dev q p.size := by
  rw [State.charge, if_pos rfl]

theorem charge_false (inDev dev : Fin n) (q : ℕ) (p : Packet n) :
    s.charge cfg inDev dev q p false = s.updateEgressAdmission dev q p.size := by
  rw [State.charge, if_neg Bool.false_ne_true]

theorem updateIngressAdmission_booked (port : Fin n) (idx psize : ℕ) :
    Booked s (s.updateIngressAdmission cfg port idx psize) := by
  simp only [State.updateIngressAdmission]
  split
  · exact ⟨rfl, rfl, rfl, rfl, rfl, rfl, rfl, rfl, fun _ => le_refl _⟩
  · split <;> exact ⟨rfl, rfl, rfl, rfl, rfl, rfl, rfl, rfl, fun _ => le_refl _⟩

theorem updateEgressAdmission_booked (dev : Fin n) (q psize : ℕ) :
    Booked s (s.updateEgressAdmission dev q psize) := by
  refine ⟨rfl, rfl, rfl, rfl, rfl, rfl, rfl, rfl, fun dev' => ?_⟩
  simp only [State.updateEgressAdmission, Function.update_apply]
  split
  · rename_i here
    rw [here]
    exact le_max_left _ _
  · exact le_refl _

theorem updateEgressAdmission_lt (dev : Fin n) (q psize : ℕ) :
    q < (s.updateEgressAdmission dev q psize).egressLen dev := by
  simp only [State.updateEgressAdmission, Function.update_self]
  omega

theorem charge_egressLen (cfg : Config n) (s : State n) (inDev dev : Fin n) (q : ℕ) (p : Packet n)
    (admitted : Bool) :
    q < (s.charge cfg inDev dev q p admitted).egressLen dev := updateEgressAdmission_lt dev q p.size

theorem addBytes_booked (inDev dev : Fin n) (q psize : ℕ) :
    Booked s (s.addBytes inDev dev q psize) :=
  ⟨rfl, rfl, rfl, rfl, rfl, rfl, rfl, rfl, fun _ => le_refl _⟩

theorem charge_booked (inDev dev : Fin n) (q : ℕ) (p : Packet n) (admitted : Bool) :
    Booked s (s.charge cfg inDev dev q p admitted) := by
  cases admitted with
  | false =>
    rw [charge_false]
    exact updateEgressAdmission_booked dev q p.size
  | true =>
    rw [charge_true, State.chargeIngress]
    split
    · exact (updateIngressAdmission_booked _ _ _).trans (updateEgressAdmission_booked dev q p.size)
    · exact updateEgressAdmission_booked dev q p.size

theorem chargeMode_booked (inDev dev : Fin n) (q : ℕ) (p : Packet n) (bfcPause : Bool) :
    Booked s (s.chargeMode cfg inDev dev q p bfcPause) := by
  unfold State.chargeMode
  split
  · exact .refl s
  · split
    · exact ⟨rfl, rfl, rfl, rfl, rfl, rfl, rfl, rfl, fun _ => le_refl _⟩
    · dsimp only
      split <;> exact ⟨rfl, rfl, rfl, rfl, rfl, rfl, rfl, rfl, fun _ => le_refl _⟩
    · exact .refl s

/-- The state in which an admitted packet is handed to its output queue, but for control frames. -/
def State.chargeAll (cfg : Config n) (s : State n) (inDev dev : Fin n) (q : ℕ) (p : Packet n)
    (admitted bfcPause : Bool) : State n :=
  ((s.charge cfg inDev dev q p admitted).addBytes inDev dev q p.size).chargeMode cfg inDev dev
    q p bfcPause

theorem chargeAll_booked (inDev dev : Fin n) (q : ℕ) (p : Packet n) (admitted bfcPause : Bool) :
    Booked s (s.chargeAll cfg inDev dev q p admitted bfcPause) :=
  ((charge_booked inDev dev q p admitted).trans (addBytes_booked inDev dev q p.size)).trans
    (chargeMode_booked inDev dev q p bfcPause)

theorem chargeAll_egressLen (cfg : Config n) (s : State n) (inDev dev : Fin n) (q : ℕ)
    (p : Packet n) (admitted bfcPause : Bool) :
    q < (s.chargeAll cfg inDev dev q p admitted bfcPause).egressLen dev :=
  (charge_egressLen cfg s inDev dev q p admitted).trans_le
    (((addBytes_booked inDev dev q p.size).trans
      (chargeMode_booked inDev dev q p bfcPause)).egressLen dev)

/-- A packet that goes on to the window check: with `PFCoff`, acknowledgements need no admission. -/
structure Enters (cfg : Config n) (s : State n) (inDev dev : Fin n) (q : ℕ) (p : Packet n)
    (admitted : Bool) : Prop where
  notConsumed : State.consumes cfg p = false
  queue : q < s.nQueue dev
  linkUp : s.linkUp dev = true
  admits : s.admits cfg inDev dev q p = .ok admitted
  pfcOff : admitted = false → cfg.fcMode = .pfcOff
  ack : admitted = false → p.l3Prot = .ack ∨ p.l3Prot = .sack
  prot : p.l3Prot ≠ .switchAck

/-- `SendToDev` ends with the packet dropped or consumed, or charges it and goes on to the window
check. -/
theorem sendToDev_cases {inDev dev : Fin n} {q : ℕ} {p : Packet n} {ch : Choice}
    (h : s.sendToDev cfg inDev dev q p ch = .ok t) :
    (Quiet cfg s t ∧ (t = s ∨ t = s.matchFlow cfg dev q (p.arrived inDev)) ∧
      (State.consumes cfg p = true ∨ s.nQueue dev ≤ q ∨
        (s.matchFlow cfg dev q (p.arrived inDev)).admits cfg inDev dev q (p.arrived inDev) =
          .ok false)) ∨ ∃ admitted,
      Enters cfg (s.matchFlow cfg dev q (p.arrived inDev)) inDev dev q (p.arrived inDev) admitted ∧
      ((s.matchFlow cfg dev q (p.arrived inDev)).charge cfg inDev dev q
        (p.arrived inDev) admitted).forward cfg inDev dev q (p.arrived inDev) ch = .ok t := by
  unfold State.sendToDev State.sendToDevNow at h
  have quiet : Quiet cfg s (s.matchFlow cfg dev q (p.arrived inDev)) := matchFlow_quiet _ _ _
  split at h
  · rename_i stops
    cases h
    exact .inl ⟨.refl s, .inl rfl, stops.imp_right .inl⟩
  · rename_i goesOn
    rw [not_or, Bool.not_eq_true, not_le] at goesOn
    split at h
    · cases h
    · rename_i up
      have queue : q < (s.matchFlow cfg dev q (p.arrived inDev)).nQueue dev :=
        (congrArg (State.nQueue · dev) quiet.counters).symm ▸ goesOn.2
      have linkUp : (s.matchFlow cfg dev q (p.arrived inDev)).linkUp dev = true :=
        (congrArg (State.linkUp · dev) quiet.counters).symm ▸ (Bool.not_eq_false _).mp up
      obtain ⟨admitted, test, h⟩ := bind_ok h
      cases admitted with
      | true =>
        rw [if_pos rfl] at h
        split at h
        · cases h
        · rename_i switchAck
          refine .inr ⟨true, ⟨goesOn.1, queue, linkUp, test, nofun, nofun, switchAck⟩, ?_⟩
          rw [charge_true]
          exact h
      | false =>
        rw [if_neg Bool.false_ne_true] at h
        split at h
        · rename_i off
          refine .inr ⟨false, ⟨goesOn.1, queue, linkUp, test, fun _ => off.1, fun _ => off.2, ?_⟩,
            ?_⟩
          · intro switchAck
            simp [switchAck] at off
          · rw [charge_false]
            exact h
        · cases h
          exact .inl ⟨quiet, .inr rfl, .inr (.inr test)⟩

/-! ### Departure -/

/-- The counters that only one `fc_mode` keeps of a departure. -/
def State.dischargeMode (cfg : Config n) (s : State n) (inDev dev : Fin n) (q : ℕ) (p : Packet n) :
    State n :=
  if q ≠ 0 ∧ cfg.fcMode = .bfc then
    let s := s.setFlow dev p.fid (some (sub32 ((s.flowTb dev p.fid).getD 0) 1))
    if p.counterIncr then s.setPauseCounter inDev p.upstreamQ
      (sub32 (s.pauseCounter inDev p.upstreamQ) 1) else s
  else s

def State.subEgress (s : State n) (dev : Fin n) (q psize : ℕ) : State n :=
  { s with egressBytes := update₂ s.egressBytes dev q (sub32 (s.egressBytes dev q) psize) }

/-- The counters of a departure, up to those of its `fc_mode`. -/
def State.discharge (cfg : Config n) (s : State n) (inDev dev : Fin n) (q : ℕ) (p : Packet n) :
    State n :=
  let s := s.releaseIngress cfg inDev q p
  let s := (s.subEgress dev q p.size).subBytes inDev dev q p.size
  if q ≠ 0 then s.subBuffering dev p.dst p.size else s

theorem Quiet.dischargeMode (h : Quiet cfg s t) (inDev dev : Fin n) (q : ℕ) (p : Packet n) :
    Quiet cfg (s.dischargeMode cfg inDev dev q p) (t.dischargeMode cfg inDev dev q p) := by
  unfold State.dischargeMode
  split
  · have flow := h.setFlow dev p.fid (some (sub32 ((s.flowTb dev p.fid).getD 0) 1))
    dsimp only
    rw [h.flows]
    split
    · rw [flow.pauseCounter]
      exact flow.setPauseCounter _ _ _
    · exact flow
  · exact h

theorem departMode_effect {inDev dev : Fin n} {q : ℕ} {p : Packet n}
    (h : s.departMode cfg inDev dev q p = .ok t) :
    Quiet cfg (s.dischargeMode cfg inDev dev q p) t := by
  unfold State.departMode at h
  unfold State.dischargeMode
  split at h
  · rename_i mode
    cases h
    rw [if_neg (by simp [mode])]
    split
    · exact resumeDst_fold_quiet _ _
    · exact .refl s
  · rename_i mode
    unfold State.departBfc at h
    split at h
    · rename_i zero
      cases h
      rw [if_neg fun both => both.1 zero]
      exact .refl s
    · rename_i nonzero
      rw [if_pos ⟨nonzero, mode⟩]
      split at h
      · cases h
      · rename_i size found
        rw [found]
        split at h
        · rename_i incr
          obtain rfl := Except.ok.inj h
          simp only [incr, Option.getD_some, if_true]
          split
          · exact sendPfc_quiet _ _ _
          · exact .refl _
        · rename_i incr
          cases h
          simp only [incr, Option.getD_some]
          exact .refl _
  · rename_i notBfc
    cases h
    rw [if_neg fun both => notBfc both.2]
    exact .refl s

theorem removeFromEgressAdmission_ok {port : Fin n} {q psize : ℕ}
    (h : s.removeFromEgressAdmission port q psize = .ok t) :
    q < s.egressLen port ∧ psize ≤ s.egressBytes port q ∧ t = s.subEgress port q psize := by
  unfold State.removeFromEgressAdmission at h
  split at h
  · rename_i fits
    exact ⟨fits.1, fits.2, (Except.ok.inj h).symm⟩
  · cases h

theorem releaseIngress_egressLen (inDev : Fin n) (q : ℕ) (p : Packet n) :
    (s.releaseIngress cfg inDev q p).egressLen = s.egressLen := by
  simp only [State.releaseIngress, State.removeFromIngressAdmission]
  split <;> rfl

theorem releaseIngress_egressBytes (inDev : Fin n) (q : ℕ) (p : Packet n) :
    (s.releaseIngress cfg inDev q p).egressBytes = s.egressBytes := by
  simp only [State.releaseIngress, State.removeFromIngressAdmission]
  split <;> rfl

theorem releaseIngress_booked (inDev : Fin n) (q : ℕ) (p : Packet n) :
    Booked s (s.releaseIngress cfg inDev q p) := by
  simp only [State.releaseIngress, State.removeFromIngressAdmission]
  split
  · exact ⟨rfl, rfl, rfl, rfl, rfl, rfl, rfl, rfl, fun _ => le_refl _⟩
  · exact .refl s

theorem discharge_booked (inDev dev : Fin n) (q : ℕ) (p : Packet n) :
    Booked s (s.discharge cfg inDev dev q p) := by
  have released : Booked s (s.releaseIngress cfg inDev q p) := releaseIngress_booked inDev q p
  refine released.trans ?_
  simp only [State.discharge, State.subEgress, State.subBytes, State.subBuffering,
    State.setBuffering]
  split <;> exact ⟨rfl, rfl, rfl, rfl, rfl, rfl, rfl, rfl, fun _ => le_refl _⟩

theorem dischargeMode_booked (inDev dev : Fin n) (q : ℕ) (p : Packet n) :
    Booked s (s.dischargeMode cfg inDev dev q p) := by
  simp only [State.dischargeMode, State.setFlow, State.setPauseCounter]
  split
  · split <;> exact ⟨rfl, rfl, rfl, rfl, rfl, rfl, rfl, rfl, fun _ => le_refl _⟩
  · exact .refl s

def State.dischargeAll (cfg : Config n) (s : State n) (inDev dev : Fin n) (q : ℕ) (p : Packet n) :
    State n :=
  (s.discharge cfg inDev dev q p).dischargeMode cfg inDev dev q p

theorem dischargeAll_booked (inDev dev : Fin n) (q : ℕ) (p : Packet n) :
    Booked s (s.dischargeAll cfg inDev dev q p) :=
  (discharge_booked inDev dev q p).trans (dischargeMode_booked inDev dev q p)

/-- The frames `SwitchNotifyDequeue` skips. -/
def Skipped (p : Packet n) : Prop := p.l3Prot = .switchAck ∨ p.l3Prot = .pfc ∨ p.l3Prot = .ci

theorem switchNotifyDequeue_cases {dev : Fin n} {q : ℕ} {p : Packet n} {flowId : Option (Fin n)}
    (h : s.switchNotifyDequeue cfg dev q p flowId = .ok t) :
    (Skipped p ∧ t = s) ∨ (¬Skipped p ∧ ∃ inDev, p.inDev.or flowId = some inDev ∧
      q < s.egressLen dev ∧ p.size ≤ s.egressBytes dev q ∧
      Quiet cfg (s.dischargeAll cfg inDev dev q p) t) := by
  unfold State.switchNotifyDequeue at h
  split at h
  · rename_i prot
    exact .inl ⟨.inl prot, (Except.ok.inj h).symm⟩
  · rename_i prot
    exact .inl ⟨.inr (.inl prot), (Except.ok.inj h).symm⟩
  · rename_i prot
    exact .inl ⟨.inr (.inr prot), (Except.ok.inj h).symm⟩
  · rename_i notAck notPfc notCi
    refine .inr ⟨fun skipped => ?_, ?_⟩
    · rcases skipped with prot | prot | prot
      · exact notAck prot
      · exact notPfc prot
      · exact notCi prot
    · split at h
      · cases h
      · rename_i inDev known
        obtain ⟨u, removed, h⟩ := bind_ok h
        obtain ⟨len, fits, rfl⟩ := removeFromEgressAdmission_ok removed
        rw [releaseIngress_egressLen] at len
        rw [releaseIngress_egressBytes] at fits
        refine ⟨inDev, known, len, fits, Quiet.trans ?_ (departMode_effect h)⟩
        apply Quiet.dischargeMode
        split
        · exact checkAndSendResume_quiet _ _
        · exact .refl _

/-- The `k`-th buffered packet is `it`, in a queue of a device. -/
structure AtFront (s : State n) (k : ℕ) (it : Item n) : Prop where
  found : s.held[k]? = some it
  place : it.place = .queue

theorem isFront_queue {pifo : Bool} {k : ℕ} {it : Item n} (h : s.isFront pifo .queue k it = true) :
    AtFront s k it := by
  simp only [State.isFront, Bool.and_eq_true] at h
  exact ⟨of_decide_eq_true h.1.1, of_decide_eq_true h.1.2⟩

theorem dequeueAndTransmit_cases {k : ℕ} {it : Item n} {flowId : Option (Fin n)}
    (h : s.dequeueAndTransmit cfg k it flowId = .ok t) : t = s ∨
      (AtFront s k it ∧ s.linkUp it.dev = true ∧
        (it.q < queueNum ∨ cfg.fcMode ≠ .congestionIsolation) ∧
        (s.popQueue k it).switchNotifyDequeue cfg it.dev it.q it.packet flowId = .ok t) := by
  unfold State.dequeueAndTransmit at h
  split at h
  · rename_i ready
    simp only [Bool.and_eq_true, Bool.or_eq_true, decide_eq_true_eq] at ready
    exact .inr ⟨isFront_queue ready.1.1, ready.1.2, ready.2, h⟩
  · exact .inl (Except.ok.inj h).symm

/-- `DoHierQRR` moves a packet out of a queue beyond the first level, or leaves the state alone. -/
theorem hierMove_cases {k : ℕ} {it : Item n} {nextQ : ℕ} (h : s.hierMove cfg k it nextQ = .ok t) :
    t = s ∨
    ∃ inDev u, AtFront s k it ∧ it.packet.inDev = some inDev ∧ queueNum ≤ it.q ∧
    nextQ < s.nQueue it.dev ∧ it.q < s.egressLen it.dev ∧ it.size ≤ s.egressBytes it.dev it.q ∧
      (((s.popQueue k it).subEgress it.dev it.q it.size).subBytes inDev it.dev it.q
        it.size).doEnqueue cfg it.dev nextQ true it.packet = some u ∧
      t = if cfg.controlled nextQ then
        ((u.addBytes inDev it.dev nextQ it.size).updateEgressAdmission it.dev nextQ
          it.size).updateIngressAdmission cfg inDev nextQ it.size
        else (u.addBytes inDev it.dev nextQ it.size).updateEgressAdmission it.dev nextQ
          it.size := by
  unfold State.hierMove at h
  split at h
  · rename_i inDev ready known
    simp only [Bool.and_eq_true, decide_eq_true_eq] at ready
    obtain ⟨v, removed, h⟩ := bind_ok h
    obtain ⟨len, fits, rfl⟩ := removeFromEgressAdmission_ok removed
    cases enqueued : (((s.popQueue k it).subEgress it.dev it.q it.size).subBytes inDev it.dev it.q
        it.size).doEnqueue cfg it.dev nextQ true it.packet with
    | none =>
      simp only [enqueued] at h
      cases h
    | some u =>
      simp only [enqueued] at h
      exact .inr ⟨inDev, u, isFront_queue ready.1.1, known, ready.1.2, ready.2, len, fits, enqueued,
        (Except.ok.inj h).symm⟩
  · exact .inl (Except.ok.inj h).symm

end Buffer

end Pyrrha

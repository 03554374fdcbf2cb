import Pyrrha.Buffer.Ingress

/-!
The pause flags of PFC: which steps raise them and which clear them, and the frames that go with it.
-/

namespace Pyrrha
open Lib

namespace Buffer

variable {n : ℕ} {cfg : Config n} {s t u : State n}

/-! ### Flags that are raised -/

/-- From `s` to `t` flags were only raised, at the indices `place`, and each with its frame. -/
structure Raises (place : Fin n → ℕ → Prop) (s t : State n) : Prop where
  kept : ∀ i x, s.paused i x = true → t.paused i x = true
  frames : s.pfcFrames ⊆ t.pfcFrames
  raised : ∀ i x, t.paused i x = true → s.paused i x = true ∨
    (place i x ∧ (i, x, true) ∈ t.pfcFrames)

variable {place wider : Fin n → ℕ → Prop}

theorem raises_same (paused : t.paused = s.paused) (frames : s.pfcFrames ⊆ t.pfcFrames) :
    Raises place s t where
  kept := fun i x flag => by rw [paused]; exact flag
  frames := frames
  raised := fun i x flag => by
    rw [paused] at flag
    exact .inl flag

theorem Raises.trans (first : Raises place s t) (second : Raises place t u) : Raises place s u where
  kept := fun i x flag => second.kept i x (first.kept i x flag)
  frames := fun _ member => second.frames (first.frames member)
  raised := fun i x flag => by
    rcases second.raised i x flag with before | new
    · exact (first.raised i x before).imp_right fun new => ⟨new.1, second.frames new.2⟩
    · exact .inr new

theorem Raises.mono (h : Raises place s t) (le : ∀ i x, place i x → wider i x) :
    Raises wider s t where
  kept := h.kept
  frames := h.frames
  raised := fun i x flag => (h.raised i x flag).imp_right fun new => ⟨le i x new.1, new.2⟩

theorem switchSend_flags (dev : Fin n) (q : ℕ) (counted : Bool) (p : Packet n) :
    (s.switchSend cfg dev q counted p).paused = s.paused ∧
      (s.switchSend cfg dev q counted p).pfcFrames = s.pfcFrames := by
  rcases switchSend_cases cfg s dev q counted p with refused | sent
  · rw [refused]
    exact ⟨rfl, rfl⟩
  · obtain ⟨-, same⟩ := doEnqueue_cases sent
    rw [same]
    exact ⟨rfl, rfl⟩

theorem switchSend_raises (dev : Fin n) (q : ℕ) (counted : Bool) (p : Packet n) :
    Raises place s (s.switchSend cfg dev q counted p) := by
  obtain ⟨paused, frames⟩ := @switchSend_flags n cfg s dev q counted p
  exact raises_same paused (by rw [frames]; exact List.Subset.refl _)

theorem sendPfc_flags (dev : Fin n) (idx : ℕ) (pause : Bool) :
    (s.sendPfc cfg dev idx pause).paused = s.paused ∧
    (s.sendPfc cfg dev idx pause).pfcFrames = s.pfcFrames ++ [(dev, idx, pause)] := by
  apply switchSend_flags

theorem sendPfc_raises (dev : Fin n) (idx : ℕ) (pause : Bool) :
    Raises place s (s.sendPfc cfg dev idx pause) := by
  obtain ⟨paused, frames⟩ := @sendPfc_flags n cfg s dev idx pause
  exact raises_same paused (by rw [frames]; exact List.subset_append_left _ _)

theorem switchSend_sameIngress (dev : Fin n) (q : ℕ) (counted : Bool) (p : Packet n) :
    SameIngress s (s.switchSend cfg dev q counted p) := by
  rcases switchSend_cases cfg s dev q counted p with refused | sent
  · rw [refused]
    exact ⟨rfl, rfl, rfl⟩
  · exact doEnqueue_sameIngress sent

theorem pause_raises (dev : Fin n) (idx : ℕ) :
    Raises (fun i x => i = dev ∧ x = idx) s ((s.sendPfc cfg dev idx true).setPause dev idx) := by
  obtain ⟨paused, frames⟩ := @sendPfc_flags n cfg s dev idx true
  refine ⟨fun i x flag => ?_, ?_, fun i x flag => ?_⟩
  · simp only [State.setPause, update₂_apply, paused]
    split
    · rfl
    · exact flag
  · simp only [State.setPause, frames]
    exact List.subset_append_left _ _
  · simp only [State.setPause, update₂_apply, paused, frames] at flag ⊢
    split at flag
    · rename_i here
      rw [here.1, here.2]
      exact .inr ⟨⟨rfl, rfl⟩, List.mem_append_right _ List.mem_cons_self⟩
    · exact .inl flag

theorem checkAndSendPfc_raises (dev : Fin n) (idx : ℕ) :
    Raises (fun i x => i = dev ∧ x = idx) s (s.checkAndSendPfc cfg dev idx) := by
  unfold State.checkAndSendPfc
  split
  · exact pause_raises dev idx
  · exact raises_same rfl (List.Subset.refl _)

theorem arriveMode_raises {inDev dev : Fin n} {q : ℕ} {p p' : Packet n} {bfcPause : Bool}
    (h : s.arriveMode cfg inDev dev q p bfcPause = .ok (t, p')) :
    Raises (fun i x => cfg.fcMode = .voqDstPfc ∧ i = inDev ∧ x = p.dst) s t := by
  unfold State.arriveMode at h
  split at h
  · rename_i mode
    cases h
    unfold State.arriveVoqDstPfc
    by_cases zero : q = 0
    · rw [if_pos zero]
      exact raises_same rfl (List.Subset.refl _)
    · rw [if_neg zero]
      have entered : Raises (fun i x => cfg.fcMode = .voqDstPfc ∧ i = inDev ∧ x = p.dst) s
          (s.addBuffering dev p.dst p.size) := raises_same rfl (List.Subset.refl _)
      dsimp only
      split
      · exact entered.trans ((pause_raises inDev p.dst).mono fun i x here => ⟨mode, here⟩)
      · exact entered
  · unfold State.arriveBfc at h
    split at h
    · cases h
      exact raises_same rfl (List.Subset.refl _)
    · split at h
      · cases h
      · rename_i size known
        have entered : ∀ count, Raises (fun i x => cfg.fcMode = .voqDstPfc ∧ i = inDev ∧
          x = p.dst) s
            ((s.setFlow dev p.fid (some (add32 size 1))).setPauseCounter inDev p.upstreamQ count) :=
              fun _ =>
          raises_same rfl (List.Subset.refl _)
        split at h
        · obtain ⟨rfl, -⟩ := Prod.mk.inj (Except.ok.inj h)
          split
          · exact (entered _).trans (sendPfc_raises _ _ _)
          · exact entered _
        · obtain ⟨rfl, -⟩ := Prod.mk.inj (Except.ok.inj h)
          exact raises_same rfl (List.Subset.refl _)
  · cases h
    exact raises_same rfl (List.Subset.refl _)

/-! ### The pause test -/

theorem checkShouldPause_false_iff {i : Fin n} {x : ℕ} : s.checkShouldPause cfg i x = false ↔
    s.paused i x = true ∨
    (s.hdrmBytes i x = 0 ∧ s.getSharedUsed i x < s.getPfcThreshold cfg i) := by
  unfold State.checkShouldPause
  cases s.paused i x <;> simp

theorem SameIngress.threshold (h : SameIngress s t) (i : Fin n) :
    t.getPfcThreshold cfg i = s.getPfcThreshold cfg i := by
  unfold State.getPfcThreshold State.sharedLeft
  rw [h.shared]

theorem SameIngress.sharedUsed (h : SameIngress s t) (i : Fin n) (x : ℕ) :
    t.getSharedUsed i x = s.getSharedUsed i x := by
  unfold State.getSharedUsed
  rw [h.ingress]

theorem SameIngress.charge (h : SameIngress s t) (i : Fin n) (x psize : ℕ) :
    SameIngress (s.updateIngressAdmission cfg i x psize)
      (t.updateIngressAdmission cfg i x psize) := by
  unfold State.updateIngressAdmission
  rw [h.threshold, h.ingress, h.hdrm, h.shared]
  dsimp only
  split
  · exact ⟨rfl, rfl, rfl⟩
  · split <;> exact ⟨rfl, rfl, rfl⟩

/-- A pause test that has been passed stays passed while flags are only raised. -/
theorem passed_raises (raises : Raises place s t) (same : SameIngress s t) {i : Fin n} {x : ℕ}
    (passed : s.checkShouldPause cfg i x = false) : t.checkShouldPause cfg i x = false := by
  rw [checkShouldPause_false_iff] at passed ⊢
  rw [same.hdrm, same.sharedUsed, same.threshold]
  exact passed.imp_left (raises.kept i x)

theorem checkAndSendPfc_passed (i : Fin n) (x : ℕ) :
    (s.checkAndSendPfc cfg i x).checkShouldPause cfg i x = false := by
  unfold State.checkAndSendPfc
  split
  · rw [checkShouldPause_false_iff]
    exact .inl (by simp [State.setPause])
  · rename_i passed
    exact Bool.eq_false_of_not_eq_true passed

/-! ### An arrival -/

/-- The indices an arrival can pause. -/
def Config.Pausable (cfg : Config n) (inDev : Fin n) (q : ℕ) (p : Packet n) (i : Fin n) (x : ℕ) :
    Prop :=
  i = inDev ∧ ((cfg.controlled q = true ∧ x = cfg.pfcFine inDev q p) ∨
    (cfg.fcMode = .voqDstPfc ∧ x = p.dst))

/-- A packet that goes on raises no flag but those of its indices, and the pause test of its own is
passed. -/
theorem passToDev_flags {inDev dev : Fin n} {q : ℕ} {p : Packet n} {bfcPause : Bool}
    (h : s.passToDev cfg inDev dev q p bfcPause = .ok t) : SameIngress s t ∧
    Raises (cfg.Pausable inDev q p) s t ∧
      (cfg.controlled q = true → t.checkShouldPause cfg inDev (cfg.pfcFine inDev q p) = false) := by
  obtain ⟨u, -, mode, rfl⟩ := passToDev_cases h
  generalize p.marked cfg q bfcPause = p' at mode
  have sent : SameIngress u (u.switchSend cfg dev q true p') := switchSend_sameIngress _ _ _ _
  have last : Raises (cfg.Pausable inDev q p) u (u.switchSend cfg dev q true p') :=
    switchSend_raises _ _ _ _
  obtain ⟨counted, -⟩ := arriveMode_effect mode
  have kept := (chargeMode_sameIngress inDev dev q p bfcPause).trans counted.sameIngress
  have flags := arriveMode_raises mode
  have added : SameIngress s (s.addBytes inDev dev q p.size) := ⟨rfl, rfl, rfl⟩
  have start : Raises (cfg.Pausable inDev q p) s (s.addBytes inDev dev q p.size) :=
    raises_same rfl (List.Subset.refl _)
  have rest : Raises (cfg.Pausable inDev q p) _ u :=
    flags.mono fun i x new => ⟨new.2.1, .inr ⟨new.1, new.2.2⟩⟩
  by_cases controlled : cfg.controlled q = true
  · rw [if_pos controlled] at kept rest
    have tested := (@checkAndSendPfc_quiet n cfg (s.addBytes inDev dev q p.size) inDev
      (cfg.pfcFine inDev q p)).sameIngress
    have raises : Raises (cfg.Pausable inDev q p) (s.addBytes inDev dev q p.size)
        ((s.addBytes inDev dev q p.size).checkAndSendPfc cfg inDev (cfg.pfcFine inDev q p)) :=
      (checkAndSendPfc_raises inDev (cfg.pfcFine inDev q p)).mono fun i x here =>
        ⟨here.1, .inl ⟨controlled, here.2⟩⟩
    refine ⟨((added.trans tested).trans kept).trans sent,
      ((start.trans raises).trans rest).trans last, fun _ => ?_⟩
    exact passed_raises (rest.trans last) (kept.trans sent) (checkAndSendPfc_passed inDev _)
  · rw [if_neg controlled] at kept rest
    exact ⟨(added.trans kept).trans sent, (start.trans rest).trans last,
      fun on => absurd on controlled⟩

theorem forward_flags {inDev dev : Fin n} {q : ℕ} {p : Packet n} {ch : Choice}
    (h : s.forward cfg inDev dev q p ch = .ok t) : SameIngress s t ∧
    Raises (cfg.Pausable inDev q p) s t := by
  unfold State.forward State.forwardNow at h
  split at h
  · cases h
    exact ⟨⟨rfl, rfl, rfl⟩, raises_same rfl (List.Subset.refl _)⟩
  · cases h
    exact ⟨⟨rfl, rfl, rfl⟩, raises_same rfl (List.Subset.refl _)⟩
  · obtain ⟨v, passed, h⟩ := bind_ok h
    obtain ⟨w, stays, h⟩ := bind_ok h
    cases stays
    obtain ⟨buffer, -, h⟩ := bind_ok h
    cases h
    obtain ⟨same, raises, -⟩ := passToDev_flags passed
    exact ⟨same, raises⟩

/-! ### A departure -/

/-- From `s` to `t` flags were only cleared. -/
structure Clears (s t : State n) : Prop where
  lowered : ∀ i x, t.paused i x = true → s.paused i x = true
  frames : s.pfcFrames ⊆ t.pfcFrames

theorem clears_same (paused : t.paused = s.paused) (frames : s.pfcFrames ⊆ t.pfcFrames) :
    Clears s t where
  lowered := fun i x flag => by
    rw [paused] at flag
    exact flag
  frames := frames

theorem Clears.trans (first : Clears s t) (second : Clears t u) : Clears s u where
  lowered := fun i x flag => first.lowered i x (second.lowered i x flag)
  frames := fun _ member => second.frames (first.frames member)

theorem resume_clears (dev : Fin n) (idx : ℕ) :
    Clears s ((s.sendPfc cfg dev idx false).setResume dev idx) := by
  obtain ⟨paused, frames⟩ := @sendPfc_flags n cfg s dev idx false
  refine ⟨fun i x flag => ?_, ?_⟩
  · simp only [State.setResume, update₂_apply, paused] at flag
    split at flag
    · cases flag
    · exact flag
  · simp only [State.setResume, frames]
    exact List.subset_append_left _ _

theorem checkAndSendResume_clears (dev : Fin n) (idx : ℕ) :
    Clears s (s.checkAndSendResume cfg dev idx) := by
  unfold State.checkAndSendResume
  split
  · exact resume_clears dev idx
  · exact clears_same rfl (List.Subset.refl _)

theorem resumeDst_clears (dst : ℕ) (i : Fin n) : Clears s (s.resumeDst cfg dst i) := by
  unfold State.resumeDst
  split
  · exact resume_clears i dst
  · exact clears_same rfl (List.Subset.refl _)

theorem resumeDst_fold_clears (dst : ℕ) (l : List (Fin n)) :
    Clears s (l.foldl (State.resumeDst cfg dst) s) := by
  induction l generalizing s with
  | nil => exact clears_same rfl (List.Subset.refl _)
  | cons i rest ih => exact (resumeDst_clears dst i).trans ih

/-- Without VOQ_DSTPFC the end of `SwitchNotifyDequeue` leaves the flags alone. -/
theorem departMode_flags (mode : cfg.fcMode ≠ .voqDstPfc) {inDev dev : Fin n} {q : ℕ} {p : Packet n}
    (h : s.departMode cfg inDev dev q p = .ok t) : t.paused = s.paused ∧
    s.pfcFrames <+: t.pfcFrames := by
  unfold State.departMode at h
  split at h
  · rename_i dstPfc
    exact absurd dstPfc mode
  · unfold State.departBfc at h
    split at h
    · cases h
      exact ⟨rfl, List.prefix_rfl⟩
    · split at h
      · cases h
      · rename_i size known
        split at h
        · obtain rfl := Except.ok.inj h
          generalize sub32
            ((s.setFlow dev p.fid (some (sub32 size 1))).pauseCounter inDev p.upstreamQ) 1 = count
          split
          · rw [(sendPfc_flags _ _ _).1, (sendPfc_flags _ _ _).2]
            exact ⟨rfl, List.prefix_append _ _⟩
          · exact ⟨rfl, List.prefix_rfl⟩
        · cases h
          exact ⟨rfl, List.prefix_rfl⟩
  · cases h
    exact ⟨rfl, List.prefix_rfl⟩

theorem departMode_clears {inDev dev : Fin n} {q : ℕ} {p : Packet n}
    (h : s.departMode cfg inDev dev q p = .ok t) : Clears s t := by
  by_cases mode : cfg.fcMode = .voqDstPfc
  · unfold State.departMode at h
    rw [mode] at h
    cases h
    split
    · exact resumeDst_fold_clears _ _
    · exact clears_same rfl (List.Subset.refl _)
  · obtain ⟨paused, frames⟩ := departMode_flags mode h
    exact clears_same paused frames.subset

theorem discharge_sameIngress (inDev dev : Fin n) (q : ℕ) (p : Packet n) :
    SameIngress (s.releaseIngress cfg inDev q p) (s.discharge cfg inDev dev q p) := by
  unfold State.discharge
  dsimp only
  split <;> exact ⟨rfl, rfl, rfl⟩

theorem switchNotifyDequeue_resume {dev : Fin n} {q : ℕ} {p : Packet n} {flowId : Option (Fin n)}
    (h : s.switchNotifyDequeue cfg dev q p flowId = .ok t) : (Skipped p ∧ t = s) ∨ ∃ inDev w,
      p.inDev.or flowId = some inDev ∧
      w = (if cfg.controlled q then
        (s.discharge cfg inDev dev q p).checkAndSendResume cfg inDev (cfg.pfcFine inDev q p)
        else s.discharge cfg inDev dev q p) ∧
      w.departMode cfg inDev dev q p = .ok t := by
  unfold State.switchNotifyDequeue at h
  split at h
  · rename_i prot
    exact .inl ⟨.inl prot, (Except.ok.inj h).symm⟩
  · rename_i prot
    exact .inl ⟨.inr (.inl prot), (Except.ok.inj h).symm⟩
  · rename_i prot
    exact .inl ⟨.inr (.inr prot), (Except.ok.inj h).symm⟩
  · right
    split at h
    · cases h
    · rename_i inDev known
      obtain ⟨u, removed, h⟩ := bind_ok h
      obtain ⟨-, -, rfl⟩ := removeFromEgressAdmission_ok removed
      exact ⟨inDev, _, known, rfl, h⟩

theorem switchNotifyDequeue_clears {dev : Fin n} {q : ℕ} {p : Packet n} {flowId : Option (Fin n)}
    (h : s.switchNotifyDequeue cfg dev q p flowId = .ok t) : Clears s t := by
  rcases switchNotifyDequeue_resume h with ⟨-, rfl⟩ | ⟨inDev, w, -, rfl, departs⟩
  · exact clears_same rfl (List.Subset.refl _)
  · have booked := @discharge_booked n cfg s inDev dev q p
    have start : Clears s (s.discharge cfg inDev dev q p) :=
      clears_same booked.paused (by rw [booked.pfcFrames]; exact List.Subset.refl _)
    refine start.trans (Clears.trans ?_ (departMode_clears departs))
    split
    · exact checkAndSendResume_clears _ _
    · exact clears_same rfl (List.Subset.refl _)

/-! ### Any step -/

theorem matchFlow_flags (cfg : Config n) (s : State n) (dev : Fin n) (q : ℕ) (p : Packet n) :
    (s.matchFlow cfg dev q p).paused = s.paused ∧ (s.matchFlow cfg dev q p).pfcFrames =
      s.pfcFrames := by
  unfold State.matchFlow
  split <;> exact ⟨rfl, rfl⟩

theorem sendToDev_raises {inDev dev : Fin n} {q : ℕ} {p : Packet n} {ch : Choice}
    (call : s.sendToDev cfg inDev dev q p ch = .ok t) :
    Raises (cfg.Pausable inDev q p) s t := by
  obtain ⟨paused, frames⟩ := matchFlow_flags cfg s dev q (p.arrived inDev)
  rcases sendToDev_cases call with ⟨-, rfl | rfl, -⟩ | ⟨admitted, enters, forwarded⟩
  · exact raises_same rfl (List.Subset.refl _)
  · exact raises_same paused (by rw [frames]; exact List.Subset.refl _)
  · have booked := @charge_booked n cfg (s.matchFlow cfg dev q (p.arrived inDev)) inDev dev q
      (p.arrived inDev) admitted
    have start : Raises (cfg.Pausable inDev q p) s
        ((s.matchFlow cfg dev q (p.arrived inDev)).charge cfg inDev dev q
          (p.arrived inDev) admitted) :=
      raises_same (booked.paused.trans paused) (by rw [booked.pfcFrames, frames]; exact List.Subset.refl _)
    exact start.trans (forward_flags forwarded).2

theorem transmit_clears {k : ℕ} {it : Item n} {flowId : Option (Fin n)}
    (call : s.dequeueAndTransmit cfg k it flowId = .ok t) : Clears s t := by
  rcases dequeueAndTransmit_cases call with rfl | ⟨-, -, -, notified⟩
  · exact clears_same rfl (List.Subset.refl _)
  · have popped : Clears s (s.popQueue k it) := clears_same rfl (List.Subset.refl _)
    exact popped.trans (switchNotifyDequeue_clears notified)

theorem hierMove_flags {k : ℕ} {it : Item n} {nextQ : ℕ}
    (call : s.hierMove cfg k it nextQ = .ok t) :
    t.paused = s.paused ∧ t.pfcFrames = s.pfcFrames := by
  rcases hierMove_cases call with rfl | ⟨inDev, u, -, -, -, -, -, -, sent, rfl⟩
  · exact ⟨rfl, rfl⟩
  · obtain ⟨-, after⟩ := doEnqueue_cases sent
    have moved : u.paused = s.paused ∧ u.pfcFrames = s.pfcFrames := by
      rw [after]
      exact ⟨rfl, rfl⟩
    split
    · have charged := @updateIngressAdmission_booked n cfg
        ((u.addBytes inDev it.dev nextQ it.size).updateEgressAdmission it.dev nextQ it.size) inDev
          nextQ it.size
      exact ⟨charged.paused.trans moved.1, charged.pfcFrames.trans moved.2⟩
    · exact moved

theorem sendFrame_flags (dev : Fin n) (p : Packet n) :
    (s.sendFrame cfg dev p).paused = s.paused ∧ (s.sendFrame cfg dev p).pfcFrames =
      s.pfcFrames := by
  unfold State.sendFrame
  split
  · split
    · exact switchSend_flags _ _ _ _
    · exact ⟨rfl, rfl⟩
  · split
    · exact switchSend_flags _ _ _ _
    · exact ⟨rfl, rfl⟩
  · split
    · exact switchSend_flags _ _ _ _
    · exact ⟨rfl, rfl⟩
  · exact ⟨rfl, rfl⟩

theorem releaseVoq_flags (k : ℕ) (it : Item n) (toCache : Bool) :
    (s.releaseVoq cfg k it toCache).paused = s.paused ∧ (s.releaseVoq cfg k it toCache).pfcFrames =
      s.pfcFrames := by
  rcases releaseVoq_cases cfg s k it toCache with same | ⟨-, -, ⟨-, same⟩ | same⟩ <;> rw [same]
  · exact ⟨rfl, rfl⟩
  · exact ⟨rfl, rfl⟩
  · exact switchSend_flags _ _ _ _

theorem releaseCache_flags (k : ℕ) (it : Item n) :
    (s.releaseCache cfg k it).paused = s.paused ∧ (s.releaseCache cfg k it).pfcFrames =
      s.pfcFrames := by
  rcases releaseCache_cases cfg s k it with same | ⟨-, -, same⟩ <;> rw [same]
  · exact ⟨rfl, rfl⟩
  · exact switchSend_flags _ _ _ _

theorem pressed_lt : 28192 < 2 ^ 32 := by decide

/-- A switch with one controlled queue and nothing to share. -/
def pressedConfig (mode : FcMode) (room : Fin 100001) : Config 3 :=
  { smallConfig mode with
    pfcIngressCtrls := fun q => decide (q = 1)
    bufferSize := 28192
    bufferSize_lt := pressed_lt
    maxBytes := room
    maxBytes_le := room_le room }

end Buffer

end Pyrrha

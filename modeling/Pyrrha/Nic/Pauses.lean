import Pyrrha.Nic.EgressQueue

/-!
The PFC frames of a host with `FC_BFC`. `QbbNetDevice::Receive` keeps one flag for each id of a
frame, and ignores the frames for `ack_q_idx`; a data packet carries the id that the pause test
looks up.
-/

namespace Pyrrha
open Lib

namespace Nic

/-- What `QbbNetDevice` of a host knows: its queue, `m_paused`, whether the link is up, and whether
the channel is busy. -/
structure HostDevice (σ ρ : Type) where
  eq : EgressQueue σ ρ
  paused : ℕ → Option Bool := fun _ => none
  linkUp : Bool := true
  busy : Bool := false

variable {σ ρ π : Type}

def EgressQueue.limitTokens (cfg : EgressConfig) (cb : Callbacks σ ρ π) (eq : EgressQueue σ ρ) :
    Pick → EgressQueue σ ρ
  | .token _ =>
    let start := if eq.rateLimiting then eq.nxtTknTime else cb.now
    { eq with
      rateLimiting := true
      nxtTknTime := (if eq.rateLimiterMode ≤ 1 then start else cb.now) + cfg.tknTime }
  | _ => eq

namespace HostDevice

variable (cfg : EgressConfig) (cb : Callbacks σ ρ π) (d : HostDevice σ ρ)

/-- `DequeueAndTransmit`, with the packet it sends. -/
def dequeueAndTransmit : Except EgressFault (HostDevice σ ρ × Option (Sent π)) :=
  if !d.linkUp || d.busy then .ok (d, none)
  else do
    let (eq, pick) ← d.eq.getNextQindex cfg cb d.paused
    let (eq, sent) ← (eq.limitTokens cfg cb pick).dequeueQindex cfg cb pick
    .ok ({ d with eq := eq, busy := sent.isSome }, sent)

/-- `m_paused[qIndex] = b`. -/
def setPaused (qIndex : ℕ) (b : Bool) : HostDevice σ ρ :=
  { d with paused := Function.update d.paused qIndex (some b) }

def resume (qIndex : ℕ) : Except EgressFault (HostDevice σ ρ × Option (Sent π)) :=
  match d.paused qIndex with
  | none => .error .mustBePaused
  | some b =>
    if cfg.ctrlAllEgress || b then (d.setPaused qIndex false).dequeueAndTransmit cfg cb
      else .error .mustBePaused

/-- `Receive` of a PFC frame. -/
def receivePfc (time qIndex : ℕ) : Except EgressFault (HostDevice σ ρ × Option (Sent π)) :=
  if cfg.bfc then
    if 0 < time ∧ qIndex ≠ cfg.ackQIdx then .ok (d.setPaused qIndex true, none)
    else if qIndex ≠ cfg.ackQIdx then d.resume cfg cb qIndex
    else .ok (d, none)
  else if 0 < time then .ok (d.setPaused qIndex true, none)
  else d.resume cfg cb qIndex

end HostDevice

/-- `GetQueueforFlow` for the numbers of flows in `m_queue_size`; `rand` is what `rand()`
returns. -/
def getQueueforFlow (queueSize : List ℕ) (rand : ℕ) : ℕ :=
  ((List.range queueSize.length).tail.find? fun i => decide (queueSize[i]? = some 0)).getD
    (rand % (queueNum - 1) + 1)

/-- What happens at a host. `hosts` is any change `RdmaHw` makes to the group: queue pairs come with
any ids, get messages and acknowledgements, and are given queues. -/
inductive HostEvent (σ ρ π : Type) where
  | pfc (cb : Callbacks σ ρ π) (time qIndex : ℕ)
  | transmit (cb : Callbacks σ ρ π)
  | transmitComplete (cb : Callbacks σ ρ π)
  | enqueueAck (qpid : ℕ)
  | hosts (qpGrp : List (GrpQp σ ρ))
  | link (up : Bool)

/-- A host, and the ids whose last frame was a pause. -/
structure Watched (σ ρ : Type) where
  dev : HostDevice σ ρ
  asked : ℕ → Bool := fun _ => false

namespace Watched

/-- An event, with the packet it sends. The frames are in order: a resume follows a pause of its
id. -/
def step (cfg : EgressConfig) (w : Watched σ ρ) : HostEvent σ ρ π →
    Except EgressFault (Watched σ ρ × Option (Sent π))
  | .pfc cb time qIndex =>
    if w.dev.linkUp = true ∧ (0 < time ∨ w.asked qIndex = true) then do
      let (dev, sent) ← w.dev.receivePfc cfg cb time qIndex
      .ok (⟨dev, Function.update w.asked qIndex (decide (0 < time))⟩, sent)
    else .error .disabled
  | .transmit cb => do
    let (dev, sent) ← w.dev.dequeueAndTransmit cfg cb
    .ok ({ w with dev := dev }, sent)
  | .transmitComplete cb =>
    if w.dev.busy then do
      let (dev, sent) ← { w.dev with busy := false }.dequeueAndTransmit cfg cb
      .ok ({ w with dev := dev }, sent)
    else .error .disabled
  | .enqueueAck qpid => .ok ({ w with dev.eq.ackQ := w.dev.eq.ackQ ++ [qpid] }, none)
  | .hosts qpGrp => .ok ({ w with dev.eq.qpGrp := qpGrp }, none)
  | .link up =>
      .ok ({ w with dev.linkUp := up, dev.eq.ackQ := if up then w.dev.eq.ackQ else [] }, none)

/-- While the last frame for `ack_q_idx` is a pause, no data packet can carry that id. -/
def Clear (cfg : EgressConfig) (w : Watched σ ρ) : Prop :=
  w.asked cfg.ackQIdx = true → ∀ (i : ℕ) (q : SndQp σ), w.dev.eq.qpGrp[i]? = some (.snd q) →
    q.upstreamQ cfg ≠ cfg.ackQIdx

/-- The states of the runs from the empty maps all of whose steps start from states with a
property. -/
inductive Reachable (π : Type) (cfg : EgressConfig) (allowed : Watched σ ρ → Prop) :
    Watched σ ρ → Prop where
  | initial (eq : EgressQueue σ ρ) :
      Reachable π cfg allowed ⟨⟨eq, fun _ => none, true, false⟩, fun _ => false⟩
  | step {w w' : Watched σ ρ} {ev : HostEvent σ ρ π} {sent : Option (Sent π)} :
      Reachable π cfg allowed w → allowed w →
      w.step cfg ev = .ok (w', sent) → Reachable π cfg allowed w'

theorem reachable_first {cfg : EgressConfig} {allowed : Watched σ ρ → Prop} {eq : EgressQueue σ ρ}
    {w : Watched σ ρ} {sent : Option (Sent π)} (ev : HostEvent σ ρ π)
    (start : allowed ⟨⟨eq, fun _ => none, true, false⟩, fun _ => false⟩)
    (call : step cfg ⟨⟨eq, fun _ => none, true, false⟩, fun _ => false⟩ ev = .ok (w, sent)) :
    Reachable π cfg allowed w :=
  .step (.initial eq) start call

end Watched

/-- `third.cc` with `FC_BFC`: per-QP ids with `PAUSE_QP`, or queues of the host with
`PAUSE_QUEUE`. -/
def EgressConfig.Bfc (cfg : EgressConfig) : Prop :=
  cfg.bfc = true ∧ (cfg.queueAllocateInHost = 0 ∧ cfg.pfcFine = .qp ∨ cfg.queueAllocateInHost = 1 ∧
    cfg.pfcFine = .queue)

variable {cfg : EgressConfig} {cb : Callbacks σ ρ π} {paused : ℕ → Option Bool}
    {eq eq' : EgressQueue σ ρ} {i : ℕ}
  {l : List ℕ} {pick : Pick} {sent : Option (Sent π)} {d d' : HostDevice σ ρ} {w w' : Watched σ ρ}

/-! ### The packet that is sent -/

theorem isPaused_upstreamQ (bfc : cfg.Bfc) (q : SndQp σ) :
    q.isPaused cfg cb paused = .ok (decide (paused (q.upstreamQ cfg) = some true)) := by
  unfold SndQp.isPaused SndQp.upstreamQ
  obtain ⟨-, ⟨alloc, fine⟩ | ⟨alloc, fine⟩⟩ := bfc <;> simp [alloc, fine]

/-- The senders have the ids they had before. -/
def KeepsIds (cfg : EgressConfig) (eq eq' : EgressQueue σ ρ) : Prop :=
  ∀ (i : ℕ) (q' : SndQp σ), eq'.qpGrp[i]? = some (.snd q') →
    ∃ q, eq.qpGrp[i]? = some (.snd q) ∧ q'.upstreamQ cfg = q.upstreamQ cfg

theorem keepsIds_refl (eq : EgressQueue σ ρ) : KeepsIds cfg eq eq := fun _ q here => ⟨q, here, rfl⟩

theorem keepsIds_trans {eq'' : EgressQueue σ ρ} (first : KeepsIds cfg eq eq')
    (second : KeepsIds cfg eq' eq'') : KeepsIds cfg eq eq'' := by
  intro i q'' here
  obtain ⟨q', at_i, same⟩ := second i q'' here
  obtain ⟨q, before, same'⟩ := first i q' at_i
  exact ⟨q, before, same.trans same'⟩

theorem keepsIds_senders (same : SameSenders eq eq') : KeepsIds cfg eq eq' :=
  fun i q here => ⟨q, (same.senders i q).mp here, rfl⟩

theorem keepsIds_state {q : SndQp σ} (here : eq.qpGrp[i]? = some (.snd q)) (state : σ) :
    KeepsIds cfg eq (eq.setQp i (.snd { q with state := state })) := by
  intro j q' found
  unfold EgressQueue.setQp at found
  rw [List.getElem?_set] at found
  split at found
  · rename_i same
    subst same
    split at found
    · cases found
      exact ⟨q, here, rfl⟩
    · cases found
  · exact ⟨q', found, rfl⟩

theorem scanData_keepsIds {r : Option ℕ}
    (h : EgressQueue.scanData cfg cb paused l eq = .ok (eq', r)) : KeepsIds cfg eq eq' := by
  induction l generalizing eq with
  | nil =>
    cases h
    exact keepsIds_refl _
  | cons i rest ih =>
    unfold EgressQueue.scanData at h
    split at h
    · rename_i q here
      obtain ⟨⟨state, ready⟩, -, h⟩ := bind_ok h
      have kept : KeepsIds cfg eq (eq.setQp i (.snd { q with state := state })) :=
        keepsIds_state here state
      dsimp only at h
      split at h
      · exact keepsIds_trans kept (ih h)
      · obtain ⟨held, -, h⟩ := bind_ok h
        cases held with
        | true => exact keepsIds_trans kept (ih h)
        | false =>
          cases h
          exact kept
    · exact ih h

theorem scanData_free (h : EgressQueue.scanData cfg cb paused l eq = .ok (eq', some i)) :
    ∃ q, eq'.qpGrp[i]? = some (.snd q) ∧ q.isPaused cfg cb paused = .ok false := by
  induction l generalizing eq with
  | nil => cases h
  | cons k rest ih =>
    unfold EgressQueue.scanData at h
    split at h
    · rename_i q here
      obtain ⟨⟨state, ready⟩, -, h⟩ := bind_ok h
      dsimp only at h
      split at h
      · exact ih h
      · obtain ⟨held, test, h⟩ := bind_ok h
        cases held with
        | true => exact ih h
        | false =>
          cases h
          obtain ⟨inside, -⟩ := List.getElem?_eq_some_iff.mp here
          exact ⟨_, List.getElem?_set_self inside, test⟩
    · exact ih h

theorem getNextQindex_free (h : eq.getNextQindex cfg cb paused = .ok (eq', .data i)) :
    KeepsIds cfg eq eq' ∧ ∃ q, eq'.qpGrp[i]? = some (.snd q) ∧
    q.isPaused cfg cb paused = .ok false := by
  have same := nextToken_senders cb eq
  unfold EgressQueue.getNextQindex at h
  split at h
  · cases h
  · split at h
    · cases h
    · rename_i eq₁ found
      rw [found] at same
      obtain ⟨⟨eq₂, r⟩, scanned, h⟩ := bind_ok h
      cases r with
      | none => cases h
      | some j =>
        cases h
        exact ⟨keepsIds_trans (keepsIds_senders same) (scanData_keepsIds scanned),
          scanData_free scanned⟩

/-- A data packet carries the id of a sender of the group, and the flag of that id is not set. -/
theorem dequeueAndTransmit_data {p : π} {x : ℕ} (bfc : cfg.Bfc)
    (h : d.dequeueAndTransmit cfg cb = .ok (d', some (.data i p (some x)))) :
    (∃ q, d.eq.qpGrp[i]? = some (.snd q) ∧ q.upstreamQ cfg = x) ∧ d.paused x ≠ some true := by
  unfold HostDevice.dequeueAndTransmit at h
  split at h
  · cases h
  · obtain ⟨⟨eq₁, pick⟩, picked, h⟩ := bind_ok h
    obtain ⟨⟨eq₂, sent⟩, dequeued, h⟩ := bind_ok h
    cases h
    cases pick with
    | ack =>
      unfold EgressQueue.dequeueQindex at dequeued
      dsimp only at dequeued
      split at dequeued <;> cases dequeued
    | token k =>
      unfold EgressQueue.dequeueQindex at dequeued
      dsimp only at dequeued
      split at dequeued
      · obtain ⟨⟨state, p⟩, -, dequeued⟩ := bind_ok dequeued
        cases dequeued
      · obtain ⟨⟨r, p⟩, -, dequeued⟩ := bind_ok dequeued
        cases dequeued
      · cases dequeued
    | none => cases dequeued
    | data k =>
      obtain ⟨kept, q, here, free⟩ := getNextQindex_free picked
      rw [isPaused_upstreamQ bfc] at free
      unfold EgressQueue.dequeueQindex EgressQueue.limitTokens at dequeued
      dsimp only at dequeued
      rw [here] at dequeued
      obtain ⟨⟨state, p'⟩, -, dequeued⟩ := bind_ok dequeued
      rw [if_pos bfc.1] at dequeued
      cases dequeued
      obtain ⟨q₀, before, same⟩ := kept i q here
      refine ⟨⟨q₀, before, same.symm⟩, ?_⟩
      simpa using free

/-! ### What stops a call -/

/-- A fault other than the assert of `Resume`. -/
abbrev NotResume : EgressFault → Prop := (· ≠ .mustBePaused)

theorem orFault_notResume {α : Type} (o : Option α) :
    Outcome (fun _ => True) NotResume (orFault .callback o) := by
  cases o with
  | none => nofun
  | some a => trivial

theorem isPaused_notResume (cfg : EgressConfig) (cb : Callbacks σ ρ π) (paused : ℕ → Option Bool)
    (q : SndQp σ) : Outcome (fun _ => True) NotResume (q.isPaused cfg cb paused) := by
  unfold SndQp.isPaused
  dsimp only
  split
  · nofun
  · trivial
  · trivial
  · trivial
  · trivial
  · exact outcome_bind (orFault_notResume _) fun _ _ => trivial

theorem scanData_notResume (cfg : EgressConfig) (cb : Callbacks σ ρ π) (paused : ℕ → Option Bool)
    (l : List ℕ) (eq : EgressQueue σ ρ) :
    Outcome (fun _ => True) NotResume (EgressQueue.scanData cfg cb paused l eq) := by
  induction l generalizing eq with
  | nil => trivial
  | cons i rest ih =>
    unfold EgressQueue.scanData
    split
    · refine outcome_bind (orFault_notResume _) ?_
      rintro ⟨state, ready⟩ -
      dsimp only
      split
      · exact ih _
      · refine outcome_bind (isPaused_notResume cfg cb paused _) fun held _ => ?_
        cases held with
        | true => exact ih _
        | false => trivial
    · exact ih eq

theorem getNextQindex_notResume (cfg : EgressConfig) (cb : Callbacks σ ρ π)
    (paused : ℕ → Option Bool) (eq : EgressQueue σ ρ) :
    Outcome (fun _ => True) NotResume (eq.getNextQindex cfg cb paused) := by
  unfold EgressQueue.getNextQindex
  split
  · trivial
  · split
    · trivial
    · refine outcome_bind (scanData_notResume cfg cb paused _ _) ?_
      rintro ⟨eq₂, _ | i⟩ -
      · trivial
      · trivial

theorem dequeueQindex_notResume (cfg : EgressConfig) (cb : Callbacks σ ρ π) (eq : EgressQueue σ ρ)
    (pick : Pick) : Outcome (fun _ => True) NotResume (eq.dequeueQindex cfg cb pick) := by
  unfold EgressQueue.dequeueQindex
  cases pick with
  | ack =>
    dsimp only
    split
    · trivial
    · nofun
  | token i =>
    dsimp only
    split
    · exact outcome_bind (orFault_notResume _) fun _ _ => trivial
    · exact outcome_bind (orFault_notResume _) fun _ _ => trivial
    · nofun
  | data i =>
    dsimp only
    split
    · exact outcome_bind (orFault_notResume _) fun _ _ => trivial
    · nofun
  | none => trivial

theorem dequeueAndTransmit_kept (cfg : EgressConfig) (cb : Callbacks σ ρ π) (d : HostDevice σ ρ) :
    Outcome (fun r => r.1.paused = d.paused ∧ r.1.linkUp = d.linkUp) NotResume
      (d.dequeueAndTransmit cfg cb) := by
  unfold HostDevice.dequeueAndTransmit
  split
  · exact ⟨rfl, rfl⟩
  · refine outcome_bind (getNextQindex_notResume cfg cb d.paused d.eq) ?_
    rintro ⟨eq₁, pick⟩ -
    refine outcome_bind (dequeueQindex_notResume cfg cb _ pick) ?_
    rintro ⟨eq₂, sent⟩ -
    exact ⟨rfl, rfl⟩

/-! ### The flags -/

/-- The flag of an id is set while its last frame was a pause, but for `ack_q_idx`, whose flag is
never there. -/
structure Flagged (cfg : EgressConfig) (w : Watched σ ρ) : Prop where
  flags : ∀ id, id ≠ cfg.ackQIdx → (w.dev.paused id = some true ↔ w.asked id = true)
  ack : w.dev.paused cfg.ackQIdx = none

/-- A frame sets the flag of its id or finds it set, and leaves the others. -/
theorem receivePfc_kept {time qIndex : ℕ} (bfc : cfg.Bfc) (flagged : Flagged cfg w)
    (inOrder : 0 < time ∨ w.asked qIndex = true) :
    Outcome (fun r => Flagged cfg ⟨r.1, Function.update w.asked qIndex (decide (0 < time))⟩)
      NotResume (w.dev.receivePfc cfg cb time qIndex) := by
  have frame : ∀ b : Bool, qIndex ≠ cfg.ackQIdx →
      Flagged cfg ⟨w.dev.setPaused qIndex b, Function.update w.asked qIndex b⟩ := by
    intro b other
    refine ⟨fun id known => ?_, (Function.update_of_ne (Ne.symm other) _ _).trans flagged.ack⟩
    show Function.update w.dev.paused qIndex (some b) id = some true ↔
      Function.update w.asked qIndex b id = true
    by_cases here : id = qIndex
    · subst here
      simp
    · rw [Function.update_of_ne here, Function.update_of_ne here]
      exact flagged.flags id known
  unfold HostDevice.receivePfc
  rw [if_pos bfc.1]
  split
  · rename_i pause
    rw [decide_eq_true pause.1]
    exact frame true pause.2
  · rename_i no_pause
    split
    · rename_i other
      have resumes : ¬0 < time := fun positive => no_pause ⟨positive, other⟩
      have set : w.dev.paused qIndex = some true :=
        (flagged.flags qIndex other).mpr (inOrder.resolve_left resumes)
      unfold HostDevice.resume
      rw [set]
      dsimp only
      rw [Bool.or_true, if_pos rfl, decide_eq_false resumes]
      refine outcome_weaken (dequeueAndTransmit_kept cfg cb (w.dev.setPaused qIndex false)) ?_
      rintro ⟨d', sent⟩ ⟨kept, -⟩
      have cleared := frame false other
      exact ⟨fun id known => by
        rw [show d'.paused = _ from kept]
        exact cleared.flags id known, (congrFun kept _).trans cleared.ack⟩
    · rename_i is_ack
      rw [not_not] at is_ack
      refine ⟨fun id known => ?_, flagged.ack⟩
      have other : Function.update w.asked cfg.ackQIdx (decide (0 < time)) id = w.asked id :=
        Function.update_of_ne known _ _
      rw [is_ack]
      show w.dev.paused id = some true ↔
        Function.update w.asked cfg.ackQIdx (decide (0 < time)) id = true
      rw [other]
      exact flagged.flags id known

theorem flagged_transmit (flagged : Flagged cfg w) (kept : d'.paused = w.dev.paused) :
    Flagged cfg ⟨d', w.asked⟩ := by
  refine ⟨fun id known => ?_, (congrFun kept _).trans flagged.ack⟩
  rw [show d'.paused = _ from kept]
  exact flagged.flags id known

/-- Every step keeps the flags, and no resume finds its flag missing. -/
theorem step_flagged {ev : HostEvent σ ρ π} (bfc : cfg.Bfc) (flagged : Flagged cfg w) :
    Outcome (fun r => Flagged cfg r.1) NotResume (w.step cfg ev) := by
  cases ev with
  | pfc cb time qIndex =>
    unfold Watched.step
    dsimp only
    split
    · rename_i enabled
      exact outcome_bind (receivePfc_kept bfc flagged enabled.2) fun r after => after
    · nofun
  | transmit cb =>
    exact outcome_bind (dequeueAndTransmit_kept cfg cb w.dev) fun r kept =>
      flagged_transmit flagged kept.1
  | transmitComplete cb =>
    unfold Watched.step
    dsimp only
    split
    · refine outcome_bind (dequeueAndTransmit_kept cfg cb _) fun r kept => ?_
      exact flagged_transmit flagged kept.1
    · nofun
  | enqueueAck qpid => exact ⟨flagged.flags, flagged.ack⟩
  | hosts qpGrp => exact ⟨flagged.flags, flagged.ack⟩
  | link up => exact ⟨flagged.flags, flagged.ack⟩

theorem reachable_flagged {allowed : Watched σ ρ → Prop} (bfc : cfg.Bfc)
    (reach : Watched.Reachable π cfg allowed w) : Flagged cfg w := by
  induction reach with
  | initial eq => exact ⟨fun id _ => by simp, rfl⟩
  | step before allowed call flagged =>
      exact outcome_result (P := fun r => Flagged cfg r.1) (step_flagged bfc flagged) call

/-! ### Pauses are obeyed -/

/-- The id of a sender is not paused when its flag is not set, unless it is `ack_q_idx`. -/
theorem not_asked {q : SndQp σ} {x : ℕ} (flagged : Flagged cfg w) (clear : w.Clear cfg)
    (here : w.dev.eq.qpGrp[i]? = some (.snd q)) (carries : q.upstreamQ cfg = x)
    (free : w.dev.paused x ≠ some true) : w.asked x = false := by
  cases asked : w.asked x with
  | false => rfl
  | true =>
    by_cases reserved : x = cfg.ackQIdx
    · subst reserved
      exact absurd carries (clear asked i q here)
    · exact absurd ((flagged.flags x reserved).mpr asked) free

theorem transmit_obeys {p : π} {x : ℕ} (bfc : cfg.Bfc) (flagged : Flagged cfg w)
    (clear : w.Clear cfg)
    (h : w.dev.dequeueAndTransmit cfg cb = .ok (d', some (.data i p (some x)))) :
    w.asked x = false := by
  obtain ⟨⟨q, here, carries⟩, free⟩ := dequeueAndTransmit_data bfc h
  exact not_asked flagged clear here carries free

theorem receivePfc_obeys {time qIndex : ℕ} {p : π} {x : ℕ} (bfc : cfg.Bfc) (flagged : Flagged cfg w)
    (clear : w.Clear cfg) (h : w.dev.receivePfc cfg cb time qIndex =
      .ok (d', some (.data i p (some x)))) :
    Function.update w.asked qIndex (decide (0 < time)) x = false := by
  unfold HostDevice.receivePfc at h
  rw [if_pos bfc.1] at h
  split at h
  · cases h
  · rename_i no_pause
    split at h
    · rename_i other
      have resumes : ¬0 < time := fun positive => no_pause ⟨positive, other⟩
      unfold HostDevice.resume at h
      split at h
      · cases h
      · split at h
        · obtain ⟨⟨q, here, carries⟩, free⟩ := dequeueAndTransmit_data bfc h
          by_cases same : x = qIndex
          · subst same
            simp [resumes]
          · have at_x : (w.dev.setPaused qIndex false).paused x = w.dev.paused x :=
              Function.update_of_ne same _ _
            rw [at_x] at free
            rw [Function.update_of_ne same]
            exact not_asked flagged clear here carries free
        · cases h
    · cases h

theorem step_obeys {ev : HostEvent σ ρ π} {p : π} {x : ℕ} (bfc : cfg.Bfc) (flagged : Flagged cfg w)
    (clear : w.Clear cfg) (h : w.step cfg ev = .ok (w', some (.data i p (some x)))) :
    w'.asked x = false := by
  cases ev with
  | pfc cb time qIndex =>
    unfold Watched.step at h
    dsimp only at h
    split at h
    · obtain ⟨⟨dev, sent⟩, received, h⟩ := bind_ok h
      cases h
      exact receivePfc_obeys bfc flagged clear received
    · cases h
  | transmit cb =>
    obtain ⟨⟨dev, sent⟩, transmitted, h⟩ := bind_ok h
    cases h
    exact transmit_obeys (w := w) bfc flagged clear transmitted
  | transmitComplete cb =>
    unfold Watched.step at h
    dsimp only at h
    split at h
    · obtain ⟨⟨dev, sent⟩, transmitted, h⟩ := bind_ok h
      cases h
      have idle : Flagged cfg ⟨{ w.dev with busy := false }, w.asked⟩ :=
        ⟨flagged.flags, flagged.ack⟩
      exact transmit_obeys (w := ⟨{ w.dev with busy := false }, w.asked⟩) bfc idle clear transmitted
    · cases h
  | enqueueAck qpid => cases h
  | hosts qpGrp => cases h
  | link up => cases h

/-- In the runs in which no sender has the id `ack_q_idx` while it is paused: no data packet carries
an id that is paused, every resume finds its flag set, and acknowledgements go first. -/
theorem bfc_obeys (bfc : cfg.Bfc) (reach : Watched.Reachable π cfg (Watched.Clear cfg) w)
    (clear : w.Clear cfg) :
    (∀ (ev : HostEvent σ ρ π) w' i p x, w.step cfg ev = .ok (w', some (.data i p (some x))) →
      w'.asked x = false) ∧ (∀ ev : HostEvent σ ρ π, w.step cfg ev ≠ .error .mustBePaused) ∧
      ∀ cb : Callbacks σ ρ π, w.dev.eq.ackQ ≠ [] →
        w.dev.eq.getNextQindex cfg cb w.dev.paused = .ok (w.dev.eq, .ack) := by
  have flagged := reachable_flagged bfc reach
  refine ⟨fun ev w' i p x h => step_obeys bfc flagged clear h, fun ev h => ?_, fun cb waiting => ?_⟩
  · exact outcome_stop (step_flagged bfc flagged) h rfl
  · unfold EgressQueue.getNextQindex
    rw [if_pos ⟨by simp [flagged.ack], waiting⟩]

/-! ### Queues of the host -/

theorem getQueueforFlow_range {queueSize : List ℕ} (rand : ℕ) (size : queueSize.length = queueNum) :
    1 ≤ getQueueforFlow queueSize rand ∧ getQueueforFlow queueSize rand < queueNum := by
  unfold getQueueforFlow
  cases found : (List.range queueSize.length).tail.find? fun i =>
    decide (queueSize[i]? = some 0) with
  | none =>
    have below : rand % (queueNum - 1) < queueNum - 1 := Nat.mod_lt rand (by decide)
    simp only [Option.getD_none]
    omega
  | some i =>
    have member := List.mem_of_find?_eq_some found
    rw [List.range_eq_range', List.tail_range', List.mem_range'_1] at member
    simp only [Option.getD_some]
    omega

/-- With `ack_q_idx` 0 no queue of the host is the one of the acknowledgements. -/
theorem clear_of_queues (alloc : cfg.queueAllocateInHost = 1) (high : cfg.ackQIdx = 0)
    (queues : ∀ (i : ℕ) (q : SndQp σ), w.dev.eq.qpGrp[i]? = some (.snd q) → ∃ queueSize rand,
      queueSize.length = queueNum ∧ q.queueId = getQueueforFlow queueSize rand) : w.Clear cfg := by
  intro _ i q here
  obtain ⟨queueSize, rand, size, assigned⟩ := queues i q here
  obtain ⟨positive, -⟩ := getQueueforFlow_range rand size
  simp only [SndQp.upstreamQ, alloc, high, assigned]
  simp
  omega

/-! ### The id of the acknowledgements -/

/-- Per-QP ids with `ack_q_idx` 3. -/
def perQp : EgressConfig := ⟨3, .qp, 1, false, true, 0, false, 1⟩

/-- Queues of the host with `ack_q_idx` 3. -/
def perQueue : EgressConfig := ⟨3, .queue, 1, false, true, 1, false, 1⟩

def oneSender (qpid queueId : ℕ) : EgressQueue Unit Unit where
  qpGrp := [.snd ⟨3, 1, qpid, queueId, ()⟩]
  tokenMode := .no
  rateLimiterMode := 1

/-- The sender after a pause frame for an id that the host has taken notice of, or not. -/
def afterPause (eq : EgressQueue Unit Unit) (id : ℕ) (taken : Bool) : Watched Unit Unit where
  dev := ⟨eq, if taken then Function.update (fun _ => none) id (some true) else fun _ => none,
    true, false⟩
  asked := Function.update (fun _ => false) id true

/-- A pause of queue pair 3, and one of queue 3, the third that `GetQueueforFlow` gives: both send
nevertheless. -/
theorem pause_ignored :
    (Watched.Reachable Unit perQp (fun _ => True) (afterPause (oneSender 3 0) 3 false) ∧
      ∃ w', (afterPause (oneSender 3 0) 3 false).step perQp (.transmit eagerCallbacks) =
        .ok (w', some (.data 0 () (some 3))) ∧ w'.asked 3 = true) ∧
    Watched.Reachable Unit perQueue (fun _ => True)
        (afterPause (oneSender 7 (getQueueforFlow [0, 1, 1, 0, 0, 0, 0, 0] 0)) 3 false) ∧
      ∃ w', (afterPause (oneSender 7 (getQueueforFlow [0, 1, 1, 0, 0, 0, 0, 0] 0)) 3 false).step
        perQueue
        (.transmit eagerCallbacks) = .ok (w', some (.data 0 () (some 3))) ∧ w'.asked 3 = true := by
  refine ⟨⟨?_, _, rfl, rfl⟩, ?_, _, rfl, rfl⟩
  · exact Watched.reachable_first (.pfc eagerCallbacks 5 3) trivial rfl
  · exact Watched.reachable_first (.pfc eagerCallbacks 5 3) trivial rfl

/-- After a pause of queue pair 7 the only sender sends nothing. -/
theorem bfc_obeys_seven : (afterPause (oneSender 7 0) 7 true).asked 7 = true ∧
    ∀ (ev : HostEvent Unit Unit Unit) (w' : Watched Unit Unit) (i : ℕ) (p : Unit) (x : ℕ),
      (afterPause (oneSender 7 0) 7 true).step perQp ev = .ok (w', some (.data i p (some x))) →
      w'.asked x = false := by
  have start : Watched.Clear perQp ⟨⟨oneSender 7 0, fun _ => none, true, false⟩, fun _ => false⟩ :=
    nofun
  have reach : Watched.Reachable Unit perQp (Watched.Clear perQp)
      (afterPause (oneSender 7 0) 7 true) :=
    Watched.reachable_first (.pfc eagerCallbacks 5 7) start rfl
  have clear : (afterPause (oneSender 7 0) 7 true).Clear perQp := by
    intro asked
    cases asked
  exact ⟨rfl, (bfc_obeys ⟨rfl, .inl ⟨rfl, rfl⟩⟩ reach clear).1⟩

end Nic

end Pyrrha

import Pyrrha.Floodgate.Effect

/-!
Rules for the loops of Floodgate: what a single release and a single credit preserve, a whole
`SwitchACK` and the arrival of a packet preserve.
-/

namespace Pyrrha
open Lib

namespace Floodgate

variable {cfg : Config} {I : State → Prop} {E : Assert → Prop} {s t : State}

/-! ### Credits -/

/-- A credit, a timer or the clock: no packet moves. -/
structure Credited (s t : State) : Prop where
  voqs : SameVoqs s t
  admitted : t.admitted = s.admitted
  sent : t.sent = s.sent
  egressCache : t.egressCache = s.egressCache
  nxtDataPsn : t.nxtDataPsn = s.nxtDataPsn

theorem Rewindowed.credited (h : Rewindowed s t) : Credited s t :=
  ⟨h.sameVoqs, h.sameAcks.admitted, h.sent, h.egressCache, h.nxtDataPsn⟩

namespace State

theorem updateWin_credited (cfg : Config) {s v : State} (dst pktSize dev : ℕ)
    (same : Credited s v) :
    Outcome (Credited s) Assert.OfWindow (v.updateWin cfg dst pktSize dev true) := by
  refine outcome_weaken (updateWin_outcome cfg v dst pktSize dev true) fun t written => ?_
  have credited := written.credited
  exact {
    voqs := ⟨credited.voqs.groups.trans same.voqs.groups,
      credited.voqs.voqBuffer.trans same.voqs.voqBuffer,
      credited.voqs.buffering.trans same.voqs.buffering⟩
    admitted := credited.admitted.trans same.admitted
    sent := credited.sent.trans same.sent
    egressCache := credited.egressCache.trans same.egressCache
    nxtDataPsn := credited.nxtDataPsn.trans same.nxtDataPsn }

theorem credited_refl (s : State) : Credited s s := ⟨⟨rfl, rfl, rfl⟩, rfl, rfl, rfl, rfl⟩

theorem credited_setRcvAck (s : State) (row dst psn : ℕ) : Credited s (s.setRcvAck row dst psn) :=
  ⟨⟨rfl, rfl, rfl⟩, rfl, rfl, rfl, rfl⟩

theorem recoverDst_credited (cfg : Config) (s : State) (dev : ℕ) (acktag : ℕ → ℕ) (i : ℕ) :
    Outcome (Credited s) Assert.OfWindow (s.recoverDst cfg dev acktag i) := by
  unfold recoverDst
  dsimp only
  split
  · split
    · split
      · exact updateWin_credited cfg i _ dev (credited_setRcvAck s _ i _)
      · exact updateWin_credited cfg i _ dev (credited_refl s)
    · exact updateWin_credited cfg i _ dev (credited_refl s)
  · exact credited_refl s

theorem resumeDst_credited (cfg : Config) (s : State) (acked dst inDev : ℕ) :
    Outcome (Credited s) Assert.OfWindow (s.resumeDst cfg acked dst inDev) := by
  unfold resumeDst
  dsimp only
  split
  · split
    · exact updateWin_credited cfg dst _ inDev (credited_setRcvAck s _ dst _)
    · exact updateWin_credited cfg dst _ inDev (credited_refl s)
  · exact updateWin_credited cfg dst _ inDev (credited_refl s)

theorem updateSynTime_credited (cfg : Config) (s : State) (dev dst : ℕ) (acktag : ℕ → ℕ) :
    Credited s (s.updateSynTime cfg dev dst acktag) := by
  unfold updateSynTime startTimer noteAckTimes
  split
  · exact credited_refl s
  · split <;> split <;> exact ⟨⟨rfl, rfl, rfl⟩, rfl, rfl, rfl, rfl⟩

theorem synTimeout_credited (cfg : Config) (s : State) (dev : ℕ) :
    Credited s (s.synTimeout cfg dev) := by
  unfold synTimeout
  dsimp only
  split <;> exact ⟨⟨rfl, rfl, rfl⟩, rfl, rfl, rfl, rfl⟩

end State

/-! ### Releases -/

/-- What is asked of a single release: it keeps `I` and fails only with asserts in `E`. -/
structure ReleaseRule (cfg : Config) (I : State → Prop) (E : Assert → Prop) : Prop where
  one : ∀ s g voqId, I s → Outcome (fun r => I r.1) E (s.checkAndSendOne cfg g voqId)
  cached : ∀ s dev top rest, I s → s.egressCache dev = top :: rest →
    s.checkEgressWin cfg dev top.size = true → I (s.sendCached cfg dev top rest)
  known : E .shouldIgnore
  found : ∀ s dst g, I s → cfg.dst2group dst = some (.group g) →
    (s.groups g).findVOQ (cfg.group g) dst = none → s.getBufferDst dst = 0 ∨ E .checkAndSendVOQ

namespace ReleaseRule

variable (rule : ReleaseRule cfg I E)

include rule

theorem sendWhile {g voqId : ℕ} (bound : ℕ) (before : I s) :
    Outcome I E (State.sendWhile cfg g voqId bound s) := by
  induction bound generalizing s with
  | zero => exact before
  | succ bound ih =>
    refine outcome_bind (rule.one s g voqId before) fun r after => ?_
    obtain ⟨t, success⟩ := r
    cases success with
    | false => exact after
    | true => exact ih after

theorem checkAndSendVOQ (dst : ℕ) (before : I s) : Outcome I E (s.checkAndSendVOQ cfg dst) := by
  unfold State.checkAndSendVOQ
  split
  · exact rule.known
  · exact before
  · rename_i g grouped
    split
    · exact rule.sendWhile _ before
    · rename_i none
      split
      · exact before
      · rename_i waiting
        exact (rule.found s dst g before grouped none).resolve_left waiting

theorem firstRound (keys : List ℕ) (dstLeft : List (ℕ × ℕ)) (before : I s) :
    Outcome (fun r => I r.1) E (State.firstRound cfg keys s dstLeft) := by
  induction keys generalizing s dstLeft with
  | nil => exact before
  | cons dst keys ih =>
    unfold State.firstRound
    split
    · split
      · exact rule.known
      · exact before
      · split
        · exact ih dstLeft before
        · exact outcome_bind (rule.one s _ _ before) fun r after => ih _ after
    · exact ih dstLeft before

theorem roundRobin (bound : ℕ) (dstLeft : List (ℕ × ℕ)) (before : I s) :
    Outcome I E (State.roundRobin cfg bound s dstLeft) := by
  induction bound generalizing s dstLeft with
  | zero => exact before
  | succ bound ih =>
    cases dstLeft with
    | nil => exact before
    | cons v rest => exact outcome_bind (rule.one s v.1 v.2 before) fun r after => ih _ after

theorem checkAndSendVOQs (before : I s) : Outcome I E (s.checkAndSendVOQs cfg) := by
  unfold State.checkAndSendVOQs
  refine outcome_bind (rule.firstRound _ _ before) fun r after => ?_
  obtain ⟨t, left⟩ := r
  cases left with
  | none => exact after
  | some dstLeft => exact rule.roundRobin _ dstLeft after

theorem drainCache (dev : ℕ) (cache : List PacketUnit) (same : s.egressCache dev = cache)
    (before : I s) : I (State.drainCache cfg dev cache s) := by
  induction cache generalizing s with
  | nil => exact before
  | cons top rest ih =>
    unfold State.drainCache
    split
    · rename_i fits
      refine ih ?_ (rule.cached s dev top rest before same fits)
      exact Function.update_self dev rest s.egressCache
    · exact before

theorem checkAndSendCache (dev : ℕ) (before : I s) : I (s.checkAndSendCache cfg dev) := by
  unfold State.checkAndSendCache
  split
  · exact rule.drainCache dev _ rfl before
  · exact before

/-- What the credit of one entry and a single release preserve, a `SwitchACK` preserves. -/
theorem resumeVOQWin {acktag : ℕ → ℕ} {dst inDev : ℕ}
    (time : I (s.updateSynTime cfg (cfg.psnRow inDev dst) dst acktag))
    (recover : ∀ s, ∀ i < cfg.hostNum, I s → Outcome I E (s.recoverDst cfg inDev acktag i))
    (resume : ∀ s, I s → Outcome I E (s.resumeDst cfg (acktag 0) dst inDev)) :
    Outcome (fun r => I r.1) E (s.resumeVOQWin cfg acktag dst inDev) := by
  have windows : Outcome I E
      ((s.updateSynTime cfg (cfg.psnRow inDev dst) dst acktag).resumeWindows cfg acktag dst
        inDev) := by
    unfold State.resumeWindows
    split
    · refine outcome_bind ?_ fun t after => rule.checkAndSendVOQs after
      exact outcome_foldlM (fun i member t => recover t i (List.mem_range.mp member)) time
    · exact outcome_bind (resume _ time) fun t after => rule.checkAndSendVOQ dst after
    · exact outcome_bind (resume _ time) fun t after => rule.checkAndSendVOQ dst after
  unfold State.resumeVOQWin
  refine outcome_bind windows fun t after => ?_
  exact rule.checkAndSendCache inDev after

theorem step {ev : Event} (windows : ∀ e : Assert, e.OfWindow → E e)
    (credit : ∀ s t, I s → Credited s t → I t)
    (arrive : ∀ p, ev = .data p → Outcome I E (s.sendToDev cfg p)) (before : I s) :
    Outcome I E (s.step cfg ev) := by
  cases ev with
  | data p => exact arrive p rfl
  | switchAck acktag dst inDev =>
    have resumed : Outcome (fun r => I r.1) E (s.resumeVOQWin cfg acktag dst inDev) := by
      refine rule.resumeVOQWin ?_ ?_ ?_
      · exact credit s _ before (State.updateSynTime_credited cfg s _ dst acktag)
      · intro u i _ at_u
        exact outcome_mono (State.recoverDst_credited cfg u inDev acktag i)
          (fun v => credit u v at_u) windows
      · intro u at_u
        exact outcome_mono (State.resumeDst_credited cfg u (acktag 0) dst inDev)
          (fun v => credit u v at_u) windows
    exact outcome_map resumed
  | advance time => exact credit s _ before ⟨⟨rfl, rfl, rfl⟩, rfl, rfl, rfl, rfl⟩
  | synTimeout dev => exact credit s _ before (State.synTimeout_credited cfg s dev)

end ReleaseRule

end Floodgate

end Pyrrha

import Pyrrha.Floodgate.Progress

/-!
The numbers an upstream switch gives in the absolute mode. No packet and no SYN carries a PSN beyond
that of its row, the numbers of a row only grow, and as long as no more is acknowledged than has
been sent, `GetInflightBytes` never fails.
-/

namespace Pyrrha
open Lib

namespace Floodgate

variable {cfg : Config} {s t : State} {start : ℕ → ℕ → ℕ} {acktag : ℕ → ℕ} {p p' : PacketUnit}
    {dst inDev g voqId : ℕ}

/-- The asserts besides that of `GetInflightBytes`. -/
def Assert.NoInflight (e : Assert) : Prop := e ≠ .getInflightBytes

/-- A packet comes without a number, and a `SwitchACK` is valid. -/
def Event.Unnumbered (cfg : Config) (s : State) : Event → Prop
  | .data p => p.psn = none
  | .switchAck acktag dst inDev => (Event.switchAck acktag dst inDev).AckValid cfg s
  | _ => True

namespace State

/-- The number of a packet is one of its row. -/
def Numbered (cfg : Config) (s : State) (p : PacketUnit) : Prop :=
  ∀ n, p.psn = some n → n ≤ s.nxtDataPsn (cfg.psnRow p.outDev p.dst) p.dst

/-- What holds of the numbers of a switch whose rows have been at `start`. -/
structure Onward (cfg : Config) (start : ℕ → ℕ → ℕ) (s : State) : Prop where
  ordered : s.PsnOrdered
  grows : ∀ row d, start row d ≤ s.nxtDataPsn row d
  sent : ∀ p ∈ s.sent, s.Numbered cfg p
  cached : ∀ dev, ∀ p ∈ s.egressCache dev, s.Numbered cfg p
  syns : ∀ syn ∈ s.synSent, ∀ d, (syn.2 d).2 ≤ s.nxtDataPsn syn.1 d

theorem onward_initial (cfg : Config) : (State.initial cfg).Onward cfg fun _ _ => 0 where
  ordered _ _ := Nat.le_refl 0
  grows _ _ := Nat.le_refl 0
  sent _ member := (List.not_mem_nil member).elim
  cached _ _ member := (List.not_mem_nil member).elim
  syns _ member := (List.not_mem_nil member).elim

theorem onward_again (h : s.Onward cfg start) : s.Onward cfg s.nxtDataPsn :=
  ⟨h.ordered, fun _ _ => Nat.le_refl _, h.sent, h.cached, h.syns⟩

theorem onward_weaken {first : ℕ → ℕ → ℕ} (h : s.Onward cfg start)
    (below : ∀ row d, first row d ≤ start row d) : s.Onward cfg first :=
  ⟨h.ordered, fun row d => (below row d).trans (h.grows row d), h.sent, h.cached, h.syns⟩

theorem numbered_mono (h : s.Numbered cfg p)
    (grows : ∀ row d, s.nxtDataPsn row d ≤ t.nxtDataPsn row d) :
    t.Numbered cfg p := fun n number => (h n number).trans (grows _ _)

/-! ### Windows -/

theorem getInflightBytes_answers (ordered : s.PsnOrdered) (d : ℕ) :
    Outcome (fun _ => True) Assert.NoInflight (s.getInflightBytes d) := by
  rw [getInflightBytes_eq ordered]
  trivial

theorem ensureRegisteredWin_answers (ordered : s.PsnOrdered) (d : ℕ) :
    Outcome (OnlyWins s) Assert.NoInflight (s.ensureRegisteredWin cfg d) := by
  unfold ensureRegisteredWin
  split
  · exact onlyWins_refl s
  · split
    · exact (by decide : Assert.ensureRegisteredWin ≠ .getInflightBytes)
    · split
      · rename_i win _ _
        have same : (s.setWin (cfg.winKey d) win).PsnOrdered := ordered
        exact outcome_bind (getInflightBytes_answers same _) fun _ _ => onlyWins_setWin s _ _
      · exact onlyWins_setWin s _ _

theorem psnOrdered_onlyWins (ordered : s.PsnOrdered) (only : OnlyWins s t) : t.PsnOrdered := by
  obtain ⟨wins, rfl⟩ := only
  exact ordered

theorem checkDstWin_answers (ordered : s.PsnOrdered) (d size : ℕ) :
    Outcome (fun r => OnlyWins s r.1) Assert.NoInflight (s.checkDstWin cfg d size) := by
  unfold checkDstWin
  apply outcome_bind (ensureRegisteredWin_answers ordered d)
  intro t registered
  have touched := onlyWins_trans registered (onlyWins_touchWin t d)
  split
  · apply outcome_bind (getInflightBytes_answers (psnOrdered_onlyWins ordered registered) d)
    exact fun _ _ => touched
  · exact touched

theorem shouldIgnore_answers (cfg : Config) (d : ℕ) :
    Outcome (fun _ => True) Assert.NoInflight (cfg.shouldIgnore d) := by
  unfold Config.shouldIgnore
  split
  · exact (by decide : Assert.shouldIgnore ≠ .getInflightBytes)
  · trivial
  · trivial

theorem updateDstWin_answers (ordered : s.PsnOrdered) (d size : ℕ) (isAdd : Bool) :
    Outcome (fun _ => True) Assert.NoInflight (s.updateDstWin cfg d size isAdd) := by
  unfold updateDstWin
  apply outcome_bind (shouldIgnore_answers cfg d)
  intro ignore _
  split
  · trivial
  split
  · exact outcome_bind (getInflightBytes_answers ordered d) fun _ _ => trivial
  split
  · split
    · exact (by decide : Assert.updateDstWin ≠ .getInflightBytes)
    · trivial
  · exact outcome_bind (ensureRegisteredWin_answers ordered d) fun _ _ => trivial

theorem updateWin_answers (ordered : s.PsnOrdered) (d size dev : ℕ) (isAdd : Bool) :
    Outcome (fun _ => True) Assert.NoInflight (s.updateWin cfg d size dev isAdd) :=
  outcome_bind (updateDstWin_answers ordered d size isAdd) fun _ _ => trivial

/-! ### Packets -/

theorem psnOrdered_tagPsn (ordered : s.PsnOrdered) (p : PacketUnit) :
    (s.tagPsn cfg p).1.PsnOrdered := by
  intro row d
  rw [(sameAcks_tagPsn cfg s p).rcvAckPsn]
  exact (ordered row d).trans (tagged_mono (tagged_tagPsn cfg s p) row d)

theorem mmuDequeue_answers (ordered : s.PsnOrdered) (p : PacketUnit) :
    Outcome (fun _ => True) Assert.NoInflight (s.mmuDequeue cfg p) := by
  have after := @psnOrdered_tagPsn cfg s ordered p
  unfold mmuDequeue
  generalize s.tagPsn cfg p = tagged at after
  obtain ⟨t, q⟩ := tagged
  apply outcome_bind (updateDstWin_answers after q.dst q.size false)
  intro u _
  cases known : u.buffering q.dst with
  | none =>
    rw [updateBufferingCount_none known]
    exact (by decide : Assert.updateBufferingCount ≠ .getInflightBytes)
  | some bytes =>
    rw [updateBufferingCount_sub known]
    trivial

theorem checkAndSendOne_answers (ordered : s.PsnOrdered) (g voqId : ℕ) :
    Outcome (fun _ => True) Assert.NoInflight (s.checkAndSendOne cfg g voqId) := by
  unfold checkAndSendOne
  split
  · trivial
  · rename_i top rest _
    apply outcome_bind (checkDstWin_answers ordered top.dst top.size)
    intro r only
    obtain ⟨t, fits⟩ := r
    have popped : (t.pop g voqId top.size rest).PsnOrdered :=
      fun row d => psnOrdered_onlyWins ordered only row d
    have called : Outcome (fun _ => True) Assert.NoInflight
        ((t.pop g voqId top.size rest).voqDequeueCallback cfg g voqId top) := by
      unfold voqDequeueCallback
      split
      · exact (by decide : Assert.voqDequeueCallback ≠ .getInflightBytes)
      · exact outcome_bind (mmuDequeue_answers popped top) fun _ _ => trivial
    cases fits with
    | false => trivial
    | true => exact outcome_bind called fun _ _ => trivial

theorem tagged_numbers (h : Tagged cfg s t p) (absolute : cfg.absolutePsn = true) :
    t.Numbered cfg p := by
  rcases h with ⟨relative, -⟩ | ⟨-, number, grown⟩
  · rw [absolute] at relative
    cases relative
  · intro n has
    rw [number] at has
    obtain rfl := Option.some.inj has
    rw [grown, update₂_same]

theorem onward_forwarded (absolute : cfg.absolutePsn = true) (h : s.Onward cfg start)
    (route : Forwarded cfg s t p)
    (tagged : Tagged cfg s t p) (acks : SameAcks s t) : t.Onward cfg start := by
  have mono := tagged_mono tagged
  have numbered := tagged_numbers tagged absolute
  have sent : ∀ q ∈ t.sent, t.Numbered cfg q := by
    intro q member
    rcases route with direct | pushed
    · rw [direct.sent] at member
      rcases List.mem_append.mp member with old | new
      · exact numbered_mono (h.sent q old) mono
      · rw [List.mem_singleton.mp new]
        exact numbered
    · rw [pushed.sent] at member
      exact numbered_mono (h.sent q member) mono
  have cached : ∀ dev, ∀ q ∈ t.egressCache dev, t.Numbered cfg q := by
    intro dev q member
    rcases route with direct | pushed
    · rw [direct.egressCache] at member
      exact numbered_mono (h.cached dev q member) mono
    · rw [pushed.egressCache, Function.update_apply] at member
      split at member
      · rcases List.mem_append.mp member with old | new
        · exact numbered_mono (h.cached _ q old) mono
        · rw [List.mem_singleton.mp new]
          exact numbered
      · exact numbered_mono (h.cached dev q member) mono
  refine ⟨fun row d => ?_, fun row d => (h.grows row d).trans (mono row d), sent, cached,
    fun syn member d => ?_⟩
  · rw [acks.rcvAckPsn]
    exact (h.ordered row d).trans (mono row d)
  · rw [acks.synSent] at member
    exact (h.syns syn member d).trans (mono syn.1 d)

theorem onward_same (h : s.Onward cfg start) (acks : t.rcvAckPsn = s.rcvAckPsn)
    (nxt : t.nxtDataPsn = s.nxtDataPsn)
    (sent : t.sent = s.sent) (cache : t.egressCache = s.egressCache)
    (syns : t.synSent = s.synSent) : t.Onward cfg start := by
  constructor
  · unfold PsnOrdered
    rw [acks, nxt]
    exact h.ordered
  · rw [nxt]
    exact h.grows
  · unfold Numbered
    rw [sent, nxt]
    exact h.sent
  · unfold Numbered
    rw [cache, nxt]
    exact h.cached
  · rw [syns, nxt]
    exact h.syns

theorem onward_rewindowed (h : s.Onward cfg start) (only : Rewindowed s t) :
    t.Onward cfg start := by
  obtain ⟨wins, egressWins, rfl⟩ := only
  exact onward_same h rfl rfl rfl rfl rfl

theorem onward_cached (h : s.Onward cfg start) {dev : ℕ} {rest : List PacketUnit}
    (front : s.egressCache dev = p :: rest)
    (out : SentCached cfg s t dev p rest) : t.Onward cfg start := by
  have top : s.Numbered cfg p := h.cached dev p (front ▸ List.mem_cons_self)
  constructor
  · unfold PsnOrdered
    rw [out.acks.rcvAckPsn, out.nxtDataPsn]
    exact h.ordered
  · rw [out.nxtDataPsn]
    exact h.grows
  · unfold Numbered
    rw [out.sent, out.nxtDataPsn]
    intro q member
    rcases List.mem_append.mp member with old | new
    · exact h.sent q old
    · rw [List.mem_singleton.mp new]
      exact top
  · unfold Numbered
    rw [out.egressCache, out.nxtDataPsn]
    intro i q member
    rw [Function.update_apply] at member
    split at member
    · exact h.cached dev q (front ▸ List.mem_cons_of_mem p member)
    · exact h.cached i q member
  · rw [out.acks.synSent, out.nxtDataPsn]
    exact h.syns

theorem onward_rule (absolute : cfg.absolutePsn = true) (start : ℕ → ℕ → ℕ) :
    ReleaseRule cfg (fun t => t.Onward cfg start) Assert.NoInflight where
  one s g voqId before := by
    have released := checkAndSendOne_outcome cfg s g voqId
    refine outcome_of (fun r ends => ?_) fun e =>
      outcome_stop (checkAndSendOne_answers before.ordered g voqId)
    have after := outcome_result released ends
    split at after
    · obtain ⟨p, out⟩ := after
      exact onward_forwarded absolute before out.route out.tagged out.acks
    · exact onward_rewindowed before after.only.rewindowed
  cached s dev top rest before front _ := onward_cached before front (sentCached cfg s dev top rest)
  known := (by decide : Assert.shouldIgnore ≠ .getInflightBytes)
  found _ _ _ _ _ _ := .inr (by decide : Assert.checkAndSendVOQ ≠ .getInflightBytes)

/-! ### Steps -/

theorem updateWin_onward (h : s.Onward cfg start) (d size dev : ℕ) :
    Outcome (fun t => t.Onward cfg start) Assert.NoInflight (s.updateWin cfg d size dev true) := by
  refine outcome_of (fun t ends => ?_) fun e =>
    outcome_stop (updateWin_answers h.ordered d size dev true)
  exact onward_rewindowed h (outcome_result (updateWin_outcome cfg s d size dev true) ends)

theorem onward_setRcvAck (h : s.Onward cfg start) {row psn : ℕ}
    (sent : psn ≤ s.nxtDataPsn row dst) : (s.setRcvAck row dst psn).Onward cfg start := by
  refine ⟨fun i d => ?_, h.grows, h.sent, h.cached, h.syns⟩
  show update₂ s.rcvAckPsn row dst psn i d ≤ s.nxtDataPsn i d
  rw [update₂_apply]
  split
  · rename_i here
    obtain ⟨rfl, rfl⟩ := here
    exact sent
  · exact h.ordered i d

theorem onward_updateSynTime (h : s.Onward cfg start) (dev : ℕ) :
    (s.updateSynTime cfg dev dst acktag).Onward cfg start := by
  unfold updateSynTime startTimer noteAckTimes
  split
  · exact h
  · split <;> split <;> exact onward_same h rfl rfl rfl rfl rfl

theorem recoverDst_onward (absolute : cfg.absolutePsn = true) (h : s.Onward cfg start) {i : ℕ}
    (valid : acktag i ≤ start (cfg.psnRow inDev i) i) :
    Outcome (fun t => t.Onward cfg start) Assert.NoInflight (s.recoverDst cfg inDev acktag i) := by
  unfold recoverDst
  dsimp only
  rw [if_pos absolute]
  split
  · split
    · exact updateWin_onward (onward_setRcvAck h (valid.trans (h.grows _ i))) i _ inDev
    · exact updateWin_onward h i _ inDev
  · exact h

theorem resumeDst_onward (absolute : cfg.absolutePsn = true) (h : s.Onward cfg start) {acked : ℕ}
    (valid : acked ≤ start (cfg.psnRow inDev dst) dst) :
    Outcome (fun t => t.Onward cfg start) Assert.NoInflight (s.resumeDst cfg acked dst inDev) := by
  unfold resumeDst
  dsimp only
  rw [if_pos absolute]
  split
  · exact updateWin_onward (onward_setRcvAck h (valid.trans (h.grows _ dst))) dst _ inDev
  · exact updateWin_onward h dst _ inDev

/-- In one mode the entries of a valid `SwitchACK` are recovered, in the others its only one; none
is beyond what has been sent. -/
theorem resumeVOQWin_valid {I : State → Prop} {E : Assert → Prop} (rule : ReleaseRule cfg I E)
    (valid : (Event.switchAck acktag dst inDev).AckValid cfg s)
    (time : I (s.updateSynTime cfg (cfg.psnRow inDev dst) dst acktag))
    (recover : ∀ u i, acktag i ≤ s.nxtDataPsn (cfg.psnRow inDev i) i → I u →
      Outcome I E (u.recoverDst cfg inDev acktag i))
    (resume : ∀ u, acktag 0 ≤ s.nxtDataPsn (cfg.psnRow inDev dst) dst → I u →
      Outcome I E (u.resumeDst cfg (acktag 0) dst inDev)) :
    Outcome (fun r => I r.1) E (s.resumeVOQWin cfg acktag dst inDev) := by
  obtain ⟨host, below⟩ := valid
  unfold Config.ackedPsn at below
  have windows : Outcome I E
      ((s.updateSynTime cfg (cfg.psnRow inDev dst) dst acktag).resumeWindows cfg acktag dst
        inDev) := by
    unfold resumeWindows
    cases mode : cfg.ackMode with
    | switchIngressCredit =>
      rw [mode] at below
      refine outcome_bind (outcome_foldlM (fun i member u before => ?_) time) fun u =>
        rule.checkAndSendVOQs
      exact recover u i (below i (List.mem_range.mp member)) before
    | switchDstCredit | hostPerPacketAck =>
      rw [mode] at below
      have entry := below dst host
      dsimp only at entry
      rw [if_pos rfl] at entry
      exact outcome_bind (resume _ entry time) fun u => rule.checkAndSendVOQ dst
  unfold resumeVOQWin
  apply outcome_bind windows
  exact fun t after => rule.checkAndSendCache inDev after

theorem resumeVOQWin_onward (absolute : cfg.absolutePsn = true) (h : s.Onward cfg start)
    (valid : (Event.switchAck acktag dst inDev).AckValid cfg s) :
    Outcome (fun r => r.1.Onward cfg start) Assert.NoInflight
      (s.resumeVOQWin cfg acktag dst inDev) := by
  have resumed := resumeVOQWin_valid (onward_rule absolute s.nxtDataPsn) valid
    (onward_updateSynTime (onward_again h) _)
    (fun u i entry before => recoverDst_onward absolute before entry)
    fun u entry before => resumeDst_onward absolute before entry
  exact outcome_weaken resumed fun r after => onward_weaken after h.grows

theorem getVOQ_answers (c : VoqConfig) (G : Group) (d : ℕ) :
    Outcome (fun _ => True) Assert.NoInflight (G.getVOQ c d) := by
  have found : Outcome (fun _ => True) Assert.NoInflight (G.getVOQId c d) := by
    unfold Group.getVOQId
    split
    · trivial
    · split
      · split <;> trivial
      · exact (by decide : Assert.getVOQId ≠ .getInflightBytes)
  unfold Group.getVOQ
  apply outcome_bind found
  intro r _
  dsimp only
  split
  · exact (by decide : Assert.getVOQ ≠ .getInflightBytes)
  · unfold Group.useVOQ
    split
    · split
      · exact (by decide : Assert.getVOQ ≠ .getInflightBytes)
      · trivial
    · split
      · exact (by decide : Assert.getVOQ ≠ .getInflightBytes)
      · trivial

theorem holdVoq_answers (s : State) (p : PacketUnit) :
    Outcome (fun _ => True) Assert.NoInflight (s.holdVoq cfg p) := by
  unfold holdVoq
  split
  · rename_i g _
    apply outcome_bind (getVOQ_answers (cfg.group g) (s.groups g) p.dst)
    intro r _
    dsimp only
    rw [updateBufferingCount_add]
    trivial
  · exact (by decide : Assert.getVOQ ≠ .getInflightBytes)

theorem passWin_answers (ordered : s.PsnOrdered) (p : PacketUnit) :
    Outcome (fun _ => True) Assert.NoInflight (s.passWin cfg p) := by
  unfold passWin
  apply outcome_bind (updateDstWin_answers ordered p.dst p.size false)
  intro t _
  dsimp only
  split
  · trivial
  · trivial

theorem sendToDev_answers (ordered : s.PsnOrdered) (p : PacketUnit) :
    Outcome (fun _ => True) Assert.NoInflight (s.sendToDev cfg p) := by
  unfold sendToDev
  apply outcome_bind (P := fun _ => True)
  · unfold checkVOQWin
    apply outcome_bind (shouldIgnore_answers cfg p.dst)
    intro ignore _
    split
    · trivial
    · have same : { s with admitted := s.admitted ++ [p] }.PsnOrdered := ordered
      apply outcome_bind (checkDstWin_answers same p.dst p.size)
      intro r only
      obtain ⟨t, fits⟩ := r
      dsimp only
      split
      · exact passWin_answers (psnOrdered_onlyWins same only) p
      · exact outcome_bind (holdVoq_answers t p) fun _ _ => trivial
  · intro r _
    dsimp only
    split
    · trivial
    · trivial

theorem sendToDev_onward (absolute : cfg.absolutePsn = true) (h : s.Onward cfg start)
    (bare : p.psn = none) :
    Outcome (fun t => t.Onward cfg start) Assert.NoInflight (s.sendToDev cfg p) := by
  refine outcome_of (fun t ends => ?_) fun e => outcome_stop (sendToDev_answers h.ordered p)
  have before : { s with admitted := s.admitted ++ [p] }.Onward cfg start :=
    onward_same h rfl rfl rfl rfl rfl
  rcases outcome_result (sendToDev_outcome cfg s p) ends with
    ignored | ⟨p', passed⟩ | ⟨g, voqId, G, held⟩
  · rw [ignored.eq]
    refine ⟨before.ordered, before.grows, fun q member => ?_, before.cached, before.syns⟩
    rcases List.mem_append.mp member with old | new
    · exact before.sent q old
    · rw [List.mem_singleton.mp new]
      intro n has
      rw [bare] at has
      cases has
  · exact onward_forwarded absolute before passed.route passed.tagged passed.acks
  · exact onward_same before held.acks.rcvAckPsn held.nxtDataPsn held.sent held.egressCache
      held.acks.synSent

theorem onward_synTimeout (h : s.Onward cfg start) (dev : ℕ) :
    (s.synTimeout cfg dev).Onward cfg start := by
  have entry : ∀ d, (s.getSwitchSYNTag cfg dev d).2 ≤ s.nxtDataPsn dev d := by
    intro d
    unfold getSwitchSYNTag
    split
    · exact Nat.le_refl _
    · exact Nat.zero_le _
  unfold synTimeout
  dsimp only
  split
  · refine ⟨h.ordered, h.grows, h.sent, h.cached, fun syn member => ?_⟩
    rcases List.mem_append.mp member with old | new
    · exact h.syns syn old
    · rw [List.mem_singleton.mp new]
      exact entry
  · exact onward_same h rfl rfl rfl rfl rfl

/-- Every step keeps the numbers in order, and `GetInflightBytes` does not fail in it. -/
theorem step_onward (absolute : cfg.absolutePsn = true) (h : s.Onward cfg start) {ev : Event}
    (allowed : ev.Unnumbered cfg s) :
    Outcome (fun t => t.Onward cfg start) Assert.NoInflight (s.step cfg ev) := by
  cases ev with
  | data p => exact sendToDev_onward absolute h allowed
  | switchAck acktag dst inDev => exact outcome_map (resumeVOQWin_onward absolute h allowed)
  | advance now => exact onward_same h rfl rfl rfl rfl rfl
  | synTimeout dev => exact onward_synTimeout h dev

end State

end Floodgate

end Pyrrha

import Pyrrha.Floodgate.Run

/-!
What each operation of Floodgate can do: the operations on windows write nothing but windows, a
release takes the first packet of a VOQ and hands it to the egress cache or to a queue, and the
loops are releases one after the other.
-/

namespace Pyrrha
open Lib

namespace Floodgate

variable {cfg : Config} {s t u : State}

/-- The asserts of the functions on windows. -/
def Assert.OfWindow (e : Assert) : Prop :=
  e = .shouldIgnore ∨ e = .ensureRegisteredWin ∨ e = .getInflightBytes ∨ e = .updateDstWin

/-- A state with the fields of `s` except for the windows. -/
def Rewindowed (s t : State) : Prop :=
  ∃ wins egressWins, t = { s with wins := wins, egressWins := egressWins }

theorem rewindowed_refl (s : State) : Rewindowed s s := ⟨s.wins, s.egressWins, rfl⟩

theorem rewindowed_trans (h : Rewindowed s t) (h' : Rewindowed t u) : Rewindowed s u := by
  obtain ⟨_, _, rfl⟩ := h
  obtain ⟨wins, egressWins, rfl⟩ := h'
  exact ⟨wins, egressWins, rfl⟩

/-- A state with the fields of `s` except for the windows of destinations. -/
def OnlyWins (s t : State) : Prop := ∃ wins, t = { s with wins := wins }

theorem onlyWins_refl (s : State) : OnlyWins s s := ⟨s.wins, rfl⟩

theorem onlyWins_trans (h : OnlyWins s t) (h' : OnlyWins t u) : OnlyWins s u := by
  obtain ⟨_, rfl⟩ := h
  obtain ⟨wins, rfl⟩ := h'
  exact ⟨wins, rfl⟩

theorem OnlyWins.rewindowed (h : OnlyWins s t) : Rewindowed s t := by
  obtain ⟨wins, rfl⟩ := h
  exact ⟨wins, s.egressWins, rfl⟩

theorem OnlyWins.egressWins (h : OnlyWins s t) : t.egressWins = s.egressWins := by
  obtain ⟨_, rfl⟩ := h
  rfl

namespace State

theorem onlyWins_setWin (s : State) (dst win : ℕ) : OnlyWins s (s.setWin dst win) := ⟨_, rfl⟩

theorem onlyWins_touchWin (s : State) (dst : ℕ) : OnlyWins s (s.touchWin dst) :=
  onlyWins_setWin s dst _

theorem shouldIgnore_outcome (cfg : Config) (dst : ℕ) :
    Outcome (fun ignore => if ignore then cfg.dst2group dst = some .ignore else ∃ g,
      cfg.dst2group dst = some (.group g)) Assert.OfWindow (cfg.shouldIgnore dst) := by
  unfold Config.shouldIgnore
  split
  · exact .inl rfl
  · rename_i rule
    exact rule
  · rename_i g rule
    exact ⟨g, rule⟩

theorem getInflightBytes_outcome (s : State) (dst : ℕ) :
    Outcome (fun _ => True) Assert.OfWindow (s.getInflightBytes dst) := by
  unfold getInflightBytes
  refine outcome_foldlM (fun dev _ inflight _ => ?_) trivial
  unfold addInflight
  split
  · exact .inr (.inr (.inl rfl))
  · exact trivial

theorem ensureRegisteredWin_outcome (cfg : Config) (s : State) (dst : ℕ) :
    Outcome (OnlyWins s) Assert.OfWindow (s.ensureRegisteredWin cfg dst) := by
  unfold ensureRegisteredWin
  split
  · exact onlyWins_refl s
  · split
    · exact .inr (.inl rfl)
    · split
      · exact outcome_bind (getInflightBytes_outcome _ _) fun _ _ => onlyWins_setWin s _ _
      · exact onlyWins_setWin s _ _

theorem checkDstWin_outcome (cfg : Config) (s : State) (dst pktSize : ℕ) :
    Outcome (fun r => OnlyWins s r.1) Assert.OfWindow (s.checkDstWin cfg dst pktSize) := by
  unfold checkDstWin
  refine outcome_bind (ensureRegisteredWin_outcome cfg s dst) fun t registered => ?_
  have touched := onlyWins_trans registered (onlyWins_touchWin t dst)
  split
  · exact outcome_bind (getInflightBytes_outcome t dst) fun _ _ => touched
  · exact touched

theorem checkDstWin_only {dst pktSize : ℕ} {fits : Bool}
    (ended : s.checkDstWin cfg dst pktSize = .ok (t, fits)) : OnlyWins s t := by
  have only := outcome_result (checkDstWin_outcome cfg s dst pktSize) ended
  exact only

theorem updateDstWin_outcome (cfg : Config) (s : State) (dst pktSize : ℕ) (isAdd : Bool) :
    Outcome (OnlyWins s) Assert.OfWindow (s.updateDstWin cfg dst pktSize isAdd) := by
  unfold updateDstWin
  refine outcome_bind (shouldIgnore_outcome cfg dst) fun ignore _ => ?_
  split
  · exact onlyWins_refl s
  split
  · exact outcome_bind (getInflightBytes_outcome s dst) fun _ _ => onlyWins_touchWin s dst
  split
  · split
    · exact .inr (.inr (.inr rfl))
    · exact onlyWins_setWin s dst _
  · refine outcome_bind (ensureRegisteredWin_outcome cfg s dst) fun t registered => ?_
    exact onlyWins_trans registered (onlyWins_setWin t dst _)

theorem rewindowed_updateEgressWin (cfg : Config) (s : State) (dev pktSize : ℕ) (isAdd : Bool) :
    Rewindowed s (s.updateEgressWin cfg dev pktSize isAdd) := by
  unfold updateEgressWin
  split
  · exact rewindowed_refl s
  split
  · exact ⟨s.wins, _, rfl⟩
  · exact ⟨s.wins, _, rfl⟩

theorem updateWin_outcome (cfg : Config) (s : State) (dst pktSize dev : ℕ) (isAdd : Bool) :
    Outcome (Rewindowed s) Assert.OfWindow (s.updateWin cfg dst pktSize dev isAdd) := by
  unfold updateWin
  refine outcome_bind (updateDstWin_outcome cfg s dst pktSize isAdd) fun t written => ?_
  exact rewindowed_trans written.rewindowed (rewindowed_updateEgressWin cfg t dev pktSize isAdd)

/-- The windows of ports after a debit of `dev`. -/
def debitPort (cfg : Config) (s : State) (dev pktSize : ℕ) : ℕ → ℕ :=
  if cfg.usePortWin then Function.update s.egressWins dev (sub32 (s.egressWins dev) pktSize)
    else s.egressWins

theorem updateEgressWin_debit (cfg : Config) (s : State) (dev pktSize : ℕ) :
    (s.updateEgressWin cfg dev pktSize false).egressWins = s.debitPort cfg dev pktSize ∧
      (s.updateEgressWin cfg dev pktSize false).wins = s.wins := by
  unfold updateEgressWin debitPort
  cases cfg.usePortWin with
  | true => exact ⟨rfl, rfl⟩
  | false => exact ⟨rfl, rfl⟩

end State

/-! ### Releases -/

/-- The packet `p` has been handed to its queue. -/
structure Direct (cfg : Config) (s t : State) (p : PacketUnit) : Prop where
  sent : t.sent = s.sent ++ [p]
  egressCache : t.egressCache = s.egressCache
  egressWins : t.egressWins = s.debitPort cfg p.outDev p.size
  empty : cfg.usePortWin = true → s.egressCache p.outDev = []
  opens : cfg.usePortWin = true → p.size ≤ s.egressWins p.outDev

/-- The packet `p` has been put in the egress cache. -/
structure Pushed (cfg : Config) (s t : State) (p : PacketUnit) : Prop where
  port : cfg.usePortWin = true
  sent : t.sent = s.sent
  egressCache : t.egressCache = Function.update s.egressCache p.outDev
    (s.egressCache p.outDev ++ [p])
  egressWins : t.egressWins = s.egressWins
  closed : s.egressCache p.outDev = [] → s.egressWins p.outDev < p.size

/-- The packet `p` goes on from the windows of destinations. -/
def Forwarded (cfg : Config) (s t : State) (p : PacketUnit) : Prop :=
  Direct cfg s t p ∨ Pushed cfg s t p

/-- The window of `dst` has been found open for `size` bytes, and debited. -/
def Debited (cfg : Config) (s t : State) (dst size : ℕ) : Prop :=
  ∃ u v w : State, s.checkDstWin cfg dst size = .ok (u, true) ∧ v.wins = u.wins ∧
    v.updateDstWin cfg dst size false = .ok w ∧ t.wins = w.wins

/-- The fields that only a `SwitchACK`, an arrival or the clock writes. -/
structure SameAcks (s t : State) : Prop where
  admitted : t.admitted = s.admitted
  rcvAckPsn : t.rcvAckPsn = s.rcvAckPsn
  lstrcvAckTime : t.lstrcvAckTime = s.lstrcvAckTime
  synTimeoutEvent : t.synTimeoutEvent = s.synTimeoutEvent
  now : t.now = s.now
  synSent : t.synSent = s.synSent

/-- The absolute mode has numbered the packet that goes on as `p`. -/
def Tagged (cfg : Config) (s t : State) (p : PacketUnit) : Prop :=
  (cfg.absolutePsn = false ∧ t.nxtDataPsn = s.nxtDataPsn) ∨
  (cfg.absolutePsn = true ∧ p.psn = some (s.nxtDataPsn (cfg.psnRow p.outDev p.dst) p.dst + p.size) ∧
    t.nxtDataPsn = update₂ s.nxtDataPsn (cfg.psnRow p.outDev p.dst) p.dst
      (s.nxtDataPsn (cfg.psnRow p.outDev p.dst) p.dst + p.size))

/-- The first packet of the VOQ `voqId` of group `g` has been released, and goes on as `p`. -/
structure Released (cfg : Config) (s t : State) (g voqId : ℕ) (p : PacketUnit) : Prop where
  front : ∃ top rest, s.pkts g voqId = top :: rest ∧ top.bare = p.bare ∧
    t.groups = Function.update s.groups g
      (((s.groups g).setPkts voqId rest).release (cfg.group g) p.dst voqId (t.getBufferDst p.dst))
  found : (s.groups g).findVOQId (cfg.group g) p.dst = some voqId
  buffering : ∃ bytes, s.buffering p.dst = some bytes ∧
    t.buffering = Function.update s.buffering p.dst (some (sub32 bytes p.size))
  voqBuffer : t.voqBuffer = update₂ s.voqBuffer g voqId (sub32 (s.voqBuffer g voqId) p.size)
  wins : Debited cfg s t p.dst p.size
  route : Forwarded cfg s t p
  tagged : Tagged cfg s t p
  acks : SameAcks s t

/-- No packet of the VOQ has been released: there is none, or its window is closed for the first
one. -/
structure Blocked (cfg : Config) (s t : State) (g voqId : ℕ) : Prop where
  only : OnlyWins s t
  test : (s.pkts g voqId = [] ∧ t = s) ∨
    ∃ top rest, s.pkts g voqId = top :: rest ∧ s.checkDstWin cfg top.dst top.size = .ok (t, false)

/-- The asserts the release of the first packet of a VOQ can run into, and when. -/
def Assert.OfRelease (cfg : Config) (s : State) (g voqId : ℕ) (e : Assert) : Prop :=
  e.OfWindow ∨ ∃ top rest, s.pkts g voqId = top :: rest ∧
    (((s.groups g).findVOQId (cfg.group g) top.dst ≠ some voqId ∧ e = .voqDequeueCallback) ∨
      (s.buffering top.dst = none ∧ e = .updateBufferingCount))

/-- The queues of packets and the counters of the VOQs. -/
structure SameVoqs (s t : State) : Prop where
  groups : t.groups = s.groups
  voqBuffer : t.voqBuffer = s.voqBuffer
  buffering : t.buffering = s.buffering

theorem sameAcks_trans (h : SameAcks s t) (h' : SameAcks t u) : SameAcks s u where
  admitted := h'.admitted.trans h.admitted
  rcvAckPsn := h'.rcvAckPsn.trans h.rcvAckPsn
  lstrcvAckTime := h'.lstrcvAckTime.trans h.lstrcvAckTime
  synTimeoutEvent := h'.synTimeoutEvent.trans h.synTimeoutEvent
  now := h'.now.trans h.now
  synSent := h'.synSent.trans h.synSent

theorem Rewindowed.sameAcks (h : Rewindowed s t) : SameAcks s t := by
  obtain ⟨_, _, rfl⟩ := h
  exact ⟨rfl, rfl, rfl, rfl, rfl, rfl⟩

theorem Rewindowed.sameVoqs (h : Rewindowed s t) : SameVoqs s t := by
  obtain ⟨_, _, rfl⟩ := h
  exact ⟨rfl, rfl, rfl⟩

theorem Rewindowed.sent (h : Rewindowed s t) : t.sent = s.sent := by
  obtain ⟨_, _, rfl⟩ := h
  rfl

theorem Rewindowed.egressCache (h : Rewindowed s t) : t.egressCache = s.egressCache := by
  obtain ⟨_, _, rfl⟩ := h
  rfl

theorem Rewindowed.nxtDataPsn (h : Rewindowed s t) : t.nxtDataPsn = s.nxtDataPsn := by
  obtain ⟨_, _, rfl⟩ := h
  rfl

theorem Tagged.congr {p : PacketUnit} {s' t' : State} (h : Tagged cfg s t p)
    (before : s.nxtDataPsn = s'.nxtDataPsn)
    (after : t'.nxtDataPsn = t.nxtDataPsn) : Tagged cfg s' t' p := by
  unfold Tagged at h ⊢
  rw [after, ← before]
  exact h

theorem Forwarded.congr {p : PacketUnit} (h : Forwarded cfg t u p) (sent : t.sent = s.sent)
    (cache : t.egressCache = s.egressCache) (wins : t.egressWins = s.egressWins) :
    Forwarded cfg s u p := by
  refine h.imp (fun direct => ?_) fun pushed => ?_
  · obtain ⟨joins, stays, debit, empty, opens⟩ := direct
    unfold State.debitPort at debit
    rw [sent] at joins
    rw [cache] at stays empty
    rw [wins] at debit opens
    exact ⟨joins, stays, debit, empty, opens⟩
  · obtain ⟨port, stays, joins, same, closed⟩ := pushed
    rw [sent] at stays
    rw [cache] at joins closed
    rw [wins] at same closed
    exact ⟨port, stays, joins, same, closed⟩

namespace State

theorem sameAcks_tagPsn (cfg : Config) (s : State) (p : PacketUnit) :
    SameAcks s (s.tagPsn cfg p).1 := by
  unfold tagPsn
  split <;> exact ⟨rfl, rfl, rfl, rfl, rfl, rfl⟩

theorem sameVoqs_tagPsn (cfg : Config) (s : State) (p : PacketUnit) :
    SameVoqs s (s.tagPsn cfg p).1 := by
  unfold tagPsn
  split <;> exact ⟨rfl, rfl, rfl⟩

theorem tagPsn_sent (cfg : Config) (s : State) (p : PacketUnit) :
    (s.tagPsn cfg p).1.sent = s.sent := by
  unfold tagPsn
  split <;> rfl

theorem tagPsn_egressCache (cfg : Config) (s : State) (p : PacketUnit) :
    (s.tagPsn cfg p).1.egressCache = s.egressCache := by
  unfold tagPsn
  split <;> rfl

theorem tagPsn_windows (cfg : Config) (s : State) (p : PacketUnit) :
    (s.tagPsn cfg p).1.wins = s.wins ∧ (s.tagPsn cfg p).1.egressWins = s.egressWins := by
  unfold tagPsn
  split <;> exact ⟨rfl, rfl⟩

theorem tagged_tagPsn (cfg : Config) (s : State) (p : PacketUnit) :
    Tagged cfg s (s.tagPsn cfg p).1 (s.tagPsn cfg p).2 := by
  unfold tagPsn
  split
  · rename_i absolute
    exact .inr ⟨absolute, rfl, rfl⟩
  · rename_i relative
    exact .inl ⟨Bool.eq_false_of_not_eq_true relative, rfl⟩

theorem tagPsn_bare (cfg : Config) (s : State) (p : PacketUnit) :
    (s.tagPsn cfg p).2.bare = p.bare := by
  unfold tagPsn
  split <;> rfl

theorem passesCache_port {p : PacketUnit} (port : cfg.usePortWin = true) :
    s.passesCache cfg p = true ↔ p.size ≤ s.egressWins p.outDev ∧ s.egressCache p.outDev = [] := by
  unfold passesCache checkEgressWin
  simp only [port, Bool.not_true, Bool.false_or, Bool.and_eq_true, decide_eq_true_eq,
    List.isEmpty_iff]

theorem port_of_waits {p : PacketUnit} (waits : ¬s.passesCache cfg p = true) :
    cfg.usePortWin = true := by
  by_contra none
  refine waits ?_
  rw [passesCache, Bool.eq_false_of_not_eq_true none]
  rfl

theorem doDequeueVOQ_forwards (cfg : Config) (s : State) (p : PacketUnit) :
    Forwarded cfg s (s.doDequeueVOQ cfg p) p ∧ SameAcks s (s.doDequeueVOQ cfg p) ∧
      SameVoqs s (s.doDequeueVOQ cfg p) ∧ (s.doDequeueVOQ cfg p).nxtDataPsn = s.nxtDataPsn ∧
      (s.doDequeueVOQ cfg p).wins = s.wins := by
  unfold doDequeueVOQ
  split
  · rename_i passes
    have debited := rewindowed_updateEgressWin cfg s p.outDev p.size false
    obtain ⟨egressWins, wins⟩ := updateEgressWin_debit cfg s p.outDev p.size
    refine ⟨.inl ⟨?_, debited.egressCache, egressWins, ?_, ?_⟩, ?_, ?_, debited.nxtDataPsn, wins⟩
    · exact congrArg (· ++ [p]) debited.sent
    · exact fun port => ((passesCache_port port).mp passes).2
    · exact fun port => ((passesCache_port port).mp passes).1
    · exact sameAcks_trans debited.sameAcks ⟨rfl, rfl, rfl, rfl, rfl, rfl⟩
    · exact ⟨debited.sameVoqs.groups, debited.sameVoqs.voqBuffer, debited.sameVoqs.buffering⟩
  · rename_i waits
    have port := port_of_waits waits
    have closed : s.egressCache p.outDev = [] → s.egressWins p.outDev < p.size := by
      intro empty
      by_contra opens
      exact waits ((passesCache_port port).mpr ⟨Nat.le_of_not_lt opens, empty⟩)
    exact ⟨.inr ⟨port, rfl, rfl, rfl, closed⟩, ⟨rfl, rfl, rfl, rfl, rfl, rfl⟩,
      ⟨rfl, rfl, rfl⟩, rfl, rfl⟩

theorem updateBufferingCount_sub {dst bytes : ℕ} (known : s.buffering dst = some bytes)
    (pktSize : ℕ) : s.updateBufferingCount dst pktSize false =
      .ok { s with buffering := Function.update s.buffering dst (some (sub32 bytes pktSize)) } := by
  simp only [updateBufferingCount, known, Bool.false_eq_true, if_false]

theorem updateBufferingCount_none {dst : ℕ} (unknown : s.buffering dst = none) (pktSize : ℕ) :
    s.updateBufferingCount dst pktSize false = .error .updateBufferingCount := by
  simp only [updateBufferingCount, unknown, Bool.false_eq_true, if_false]

end State

/-- `SwitchMmu::VOQDequeueCallback` has debited windows, tagged `p` as `p'` and taken it off
`m_buffering`. -/
structure Dequeued (cfg : Config) (s t : State) (p p' : PacketUnit) (left : ℕ) : Prop where
  bare : p'.bare = p.bare
  buffering : ∃ bytes, s.buffering p.dst = some bytes ∧
    t.buffering = Function.update s.buffering p.dst (some (sub32 bytes p.size))
  left : left = t.getBufferDst p.dst
  groups : t.groups = s.groups
  voqBuffer : t.voqBuffer = s.voqBuffer
  sent : t.sent = s.sent
  egressCache : t.egressCache = s.egressCache
  egressWins : t.egressWins = s.egressWins
  wins : ∃ v w : State, v.wins = s.wins ∧ v.updateDstWin cfg p'.dst p'.size false = .ok w ∧
    t.wins = w.wins
  tagged : Tagged cfg s t p'
  acks : SameAcks s t

namespace State

theorem mmuDequeue_outcome (cfg : Config) (s : State) (p : PacketUnit) :
    Outcome (fun r => Dequeued cfg s r.1 p r.2.1 r.2.2)
      (fun e => e.OfWindow ∨ (s.buffering p.dst = none ∧ e = .updateBufferingCount))
      (s.mmuDequeue cfg p) := by
  have acks := sameAcks_tagPsn cfg s p
  have voqs := sameVoqs_tagPsn cfg s p
  have sent := tagPsn_sent cfg s p
  have cache := tagPsn_egressCache cfg s p
  have bare := tagPsn_bare cfg s p
  have windows := tagPsn_windows cfg s p
  have numbered := tagged_tagPsn cfg s p
  unfold mmuDequeue
  generalize s.tagPsn cfg p = tagged at *
  obtain ⟨r, p'⟩ := tagged
  dsimp only at acks voqs sent cache bare windows numbered ⊢
  obtain ⟨dst, size, -, -⟩ := PacketUnit.bare_fields bare
  have debited := outcome_call (updateDstWin_outcome cfg r p'.dst p'.size false)
  refine outcome_bind (outcome_mono debited (fun _ h => h) fun _ => .inl) fun t called => ?_
  obtain ⟨ended, only⟩ := called
  have written := only.rewindowed
  have same : t.buffering = s.buffering := written.sameVoqs.buffering.trans voqs.buffering
  cases known : t.buffering p'.dst with
  | none =>
    rw [updateBufferingCount_none known]
    rw [same, dst] at known
    exact .inr ⟨known, rfl⟩
  | some bytes =>
    rw [updateBufferingCount_sub known]
    exact {
      bare := bare
      buffering := ⟨bytes, by rw [← same, ← dst, known], by rw [← same, ← dst, ← size]⟩
      left := by rw [← dst]
      groups := written.sameVoqs.groups.trans voqs.groups
      voqBuffer := written.sameVoqs.voqBuffer.trans voqs.voqBuffer
      sent := written.sent.trans sent
      egressCache := written.egressCache.trans cache
      egressWins := only.egressWins.trans windows.2
      wins := ⟨r, t, windows.1, ended, rfl⟩
      tagged := numbered.congr rfl written.nxtDataPsn
      acks := sameAcks_trans (sameAcks_trans acks written.sameAcks) ⟨rfl, rfl, rfl, rfl, rfl, rfl⟩ }

/-- The release of the first packet of a VOQ, once its window has been tested. -/
theorem release_outcome {g voqId : ℕ} {top : PacketUnit} {rest : List PacketUnit}
    (front : s.pkts g voqId = top :: rest) (opens : s.checkDstWin cfg top.dst top.size =
      .ok (t, true)) :
    Outcome (fun r => Released cfg s (r.1.doDequeueVOQ cfg r.2) g voqId r.2)
      (Assert.OfRelease cfg s g voqId)
      ((t.pop g voqId top.size rest).voqDequeueCallback cfg g voqId top) := by
  have only := checkDstWin_only opens
  have tested := only.rewindowed
  unfold voqDequeueCallback
  have kept : ((t.pop g voqId top.size rest).groups g).findVOQId (cfg.group g) top.dst =
      (s.groups g).findVOQId (cfg.group g) top.dst := by
    simp only [pop, setGroup, Function.update_self, Group.findVOQId_setPkts, tested.sameVoqs.groups]
  split
  · rename_i lost
    exact .inr ⟨top, rest, front, .inl ⟨kept ▸ lost, rfl⟩⟩
  rename_i found
  rw [ne_eq, not_not, kept] at found
  have same : (t.pop g voqId top.size rest).buffering = s.buffering := tested.sameVoqs.buffering
  have dequeued := mmuDequeue_outcome cfg (t.pop g voqId top.size rest) top
  rw [same] at dequeued
  have fails : ∀ e : Assert, e.OfWindow ∨ (s.buffering top.dst = none ∧ e = .updateBufferingCount) →
      e.OfRelease cfg s g voqId :=
    fun e failed => failed.imp id fun count => ⟨top, rest, front, .inr count⟩
  refine outcome_bind (outcome_mono dequeued (fun _ h => h) fails) fun r effect => ?_
  obtain ⟨v, p, left⟩ := r
  dsimp only at effect ⊢
  obtain ⟨dst, size, -, -⟩ := PacketUnit.bare_fields effect.bare
  obtain ⟨route, acks, voqs, psns, wins⟩ :=
    doDequeueVOQ_forwards cfg (v.setGroup g ((v.groups g).release (cfg.group g) p.dst voqId left)) p
  have groups : t.groups = s.groups := tested.sameVoqs.groups
  have shelf : v.groups g = (s.groups g).setPkts voqId rest := by
    rw [effect.groups]
    simp only [pop, setGroup, Function.update_self, groups]
  obtain ⟨bytes, known, counted⟩ := effect.buffering
  rw [same] at known counted
  have popped : SameAcks t (t.pop g voqId top.size rest) := ⟨rfl, rfl, rfl, rfl, rfl, rfl⟩
  have placed : SameAcks v (v.setGroup g ((v.groups g).release (cfg.group g) p.dst voqId left)) :=
    ⟨rfl, rfl, rfl, rfl, rfl, rfl⟩
  change Released cfg s (doDequeueVOQ cfg
    (v.setGroup g ((v.groups g).release (cfg.group g) p.dst voqId left)) p) g voqId p
  refine {
    front := ⟨top, rest, front, effect.bare.symm, ?_⟩
    found := ?_
    buffering := ⟨bytes, dst ▸ known, ?_⟩
    voqBuffer := ?_
    wins := ?_
    route :=
      route.congr (effect.sent.trans tested.sent) (effect.egressCache.trans tested.egressCache)
      (effect.egressWins.trans only.egressWins)
    tagged := effect.tagged.congr tested.nxtDataPsn psns
    acks := sameAcks_trans tested.sameAcks
      (sameAcks_trans popped (sameAcks_trans effect.acks (sameAcks_trans placed acks))) }
  · have left_eq : left = (State.doDequeueVOQ cfg
        (v.setGroup g ((v.groups g).release (cfg.group g) p.dst voqId left))
          p).getBufferDst p.dst := by
      unfold getBufferDst
      rw [voqs.buffering, effect.left, dst]
      rfl
    rw [← left_eq, voqs.groups]
    unfold setGroup
    rw [shelf, effect.groups]
    simp only [pop, setGroup, groups, Function.update_idem]
  · rw [dst]
    exact found
  · rw [voqs.buffering, dst, size]
    exact counted
  · rw [voqs.voqBuffer, size, ← tested.sameVoqs.voqBuffer]
    exact effect.voqBuffer
  · obtain ⟨x, w, before, debit, after⟩ := effect.wins
    rw [← dst, ← size] at opens
    exact ⟨t, x, w, opens, before, debit, wins.trans after⟩

theorem checkAndSendOne_outcome (cfg : Config) (s : State) (g voqId : ℕ) :
    Outcome (fun r => if r.2 then ∃ p, Released cfg s r.1 g voqId p else Blocked cfg s r.1 g voqId)
      (Assert.OfRelease cfg s g voqId) (s.checkAndSendOne cfg g voqId) := by
  unfold checkAndSendOne
  cases front : s.pkts g voqId with
  | nil => exact ⟨onlyWins_refl s, .inl ⟨front, rfl⟩⟩
  | cons top rest =>
    dsimp only
    have tested := outcome_call (checkDstWin_outcome cfg s top.dst top.size)
    refine outcome_bind (outcome_mono tested (fun _ h => h) fun _ => .inl) fun r called => ?_
    obtain ⟨t, fits⟩ := r
    obtain ⟨ended, only⟩ := called
    cases fits with
    | false => exact ⟨only, .inr ⟨top, rest, front, ended⟩⟩
    | true => exact outcome_bind (release_outcome front ended) fun r after => ⟨r.2, after⟩

end State

/-- `CheckAndSendCache` hands the first packet of a cache to its queue. -/
structure SentCached (cfg : Config) (s t : State) (dev : ℕ) (top : PacketUnit)
    (rest : List PacketUnit) : Prop where
  sent : t.sent = s.sent ++ [top]
  egressCache : t.egressCache = Function.update s.egressCache dev rest
  nxtDataPsn : t.nxtDataPsn = s.nxtDataPsn
  wins : t.wins = s.wins
  egressWins : t.egressWins = s.debitPort cfg dev top.size
  voqs : SameVoqs s t
  acks : SameAcks s t

theorem sentCached (cfg : Config) (s : State) (dev : ℕ) (top : PacketUnit)
    (rest : List PacketUnit) : SentCached cfg s (s.sendCached cfg dev top rest) dev top rest := by
  have debited := State.rewindowed_updateEgressWin cfg s dev top.size false
  have voqs := debited.sameVoqs
  have acks := debited.sameAcks
  exact {
    sent := congrArg (· ++ [top]) debited.sent
    egressCache := rfl
    nxtDataPsn := debited.nxtDataPsn
    wins := (State.updateEgressWin_debit cfg s dev top.size).2
    egressWins := (State.updateEgressWin_debit cfg s dev top.size).1
    voqs := ⟨voqs.groups, voqs.voqBuffer, voqs.buffering⟩
    acks := ⟨acks.admitted, acks.rcvAckPsn, acks.lstrcvAckTime, acks.synTimeoutEvent, acks.now,
      acks.synSent⟩ }

/-! ### Arrivals -/

/-- A packet of a destination without window goes to its queue. -/
structure Ignored (cfg : Config) (s t : State) (p : PacketUnit) : Prop where
  rule : cfg.dst2group p.dst = some .ignore
  eq : t = s.doSwitchSend p

/-- A packet that found its window open, and goes on as `p'`. -/
structure Passed (cfg : Config) (s t : State) (p p' : PacketUnit) : Prop where
  grouped : ∃ g, cfg.dst2group p.dst = some (.group g)
  none : s.getBufferDst p.dst = 0
  bare : p'.bare = p.bare
  wins : Debited cfg s t p.dst p.size
  route : Forwarded cfg s t p'
  tagged : Tagged cfg s t p'
  voqs : SameVoqs s t
  acks : SameAcks s t

/-- What `UpdateBufferingCount` makes of an entry when a packet is added. -/
def countIn (entry : Option ℕ) (pktSize : ℕ) : ℕ :=
  match entry with
  | none => pktSize
  | some bytes => add32 bytes pktSize

theorem countIn_mod (entry : Option ℕ) {pktSize : ℕ} (small : pktSize < 2 ^ 32) :
    countIn entry pktSize = (entry.getD 0 + pktSize) % 2 ^ 32 := by
  unfold countIn
  cases entry with
  | none => rw [Option.getD_none, Nat.zero_add, Nat.mod_eq_of_lt small]
  | some bytes => rfl

/-- Whether `CheckVOQWin` holds a packet back. -/
def State.holds (cfg : Config) (s : State) (p : PacketUnit) : Bool :=
  (s.checkDstWin cfg p.dst p.size).toOption.any fun r => !(r.2 && decide (s.getBufferDst p.dst = 0))

/-- A packet that waits in the VOQ `voqId` of group `g`, which `GetVOQ` has found in or added to the
group. -/
structure Held (cfg : Config) (s t : State) (g voqId : ℕ) (G : Group) (p : PacketUnit) : Prop where
  blocked : s.holds cfg p = true
  rule : cfg.dst2group p.dst = some (.group g)
  voq : (s.groups g).getVOQ (cfg.group g) p.dst = .ok (G, voqId)
  groups : t.groups = Function.update s.groups g (G.setPkts voqId (G.pkts voqId ++ [p]))
  voqBuffer : t.voqBuffer = update₂ s.voqBuffer g voqId (add32 (s.voqBuffer g voqId) p.size)
  buffering : t.buffering = Function.update s.buffering p.dst
    (some (countIn (s.buffering p.dst) p.size))
  tested : ∃ u fits, s.checkDstWin cfg p.dst p.size = .ok (u, fits) ∧ t.wins = u.wins ∧
    (fits = true → s.getBufferDst p.dst ≠ 0)
  egressWins : t.egressWins = s.egressWins
  sent : t.sent = s.sent
  egressCache : t.egressCache = s.egressCache
  nxtDataPsn : t.nxtDataPsn = s.nxtDataPsn
  acks : SameAcks s t

/-- The three ways a data packet can go. -/
def Arrived (cfg : Config) (s t : State) (p : PacketUnit) : Prop :=
  Ignored cfg s t p ∨ (∃ p', Passed cfg s t p p') ∨ ∃ g voqId G, Held cfg s t g voqId G p

/-- The asserts an arrival can run into: those of windows, and those of `GetVOQ`. -/
def Assert.OfArrival (cfg : Config) (s : State) (p : PacketUnit) (e : Assert) : Prop :=
  e.OfWindow ∨ ∃ g, cfg.dst2group p.dst = some (.group g) ∧
    (s.groups g).getVOQ (cfg.group g) p.dst = .error e

namespace State

theorem ensureRegisteredWin_admitted (cfg : Config) (s : State) (l : List PacketUnit) (dst : ℕ) :
    ({ s with admitted := l }).ensureRegisteredWin cfg dst =
      (s.ensureRegisteredWin cfg dst).map fun t => { t with admitted := l } := by
  unfold ensureRegisteredWin
  cases s.wins dst with
  | some w => rfl
  | none =>
    cases cfg.bdpMap (cfg.winKey dst) with
    | none => rfl
    | some win =>
      dsimp only
      split
      · change (do
          let _ ← (s.setWin (cfg.winKey dst) win).getInflightBytes (cfg.winKey dst)
          Except.ok _) = _
        cases (s.setWin (cfg.winKey dst) win).getInflightBytes (cfg.winKey dst) <;> rfl
      · rfl

theorem checkDstWin_admitted (cfg : Config) (s : State) (l : List PacketUnit) (dst size : ℕ) :
    ({ s with admitted := l }).checkDstWin cfg dst size =
      (s.checkDstWin cfg dst size).map fun r => ({ r.1 with admitted := l }, r.2) := by
  unfold checkDstWin
  rw [ensureRegisteredWin_admitted]
  cases s.ensureRegisteredWin cfg dst with
  | error e => rfl
  | ok t =>
    change (if _ then _ else _) = Except.map _ (if _ then _ else _)
    split
    · change (t.getInflightBytes dst >>= _) = Except.map _ (t.getInflightBytes dst >>= _)
      cases t.getInflightBytes dst <;> rfl
    · rfl

theorem holds_admitted (cfg : Config) (s : State) (l : List PacketUnit) (p : PacketUnit) :
    ({ s with admitted := l }).holds cfg p = s.holds cfg p := by
  unfold holds
  rw [checkDstWin_admitted]
  cases s.checkDstWin cfg p.dst p.size <;> rfl

theorem updateBufferingCount_add (s : State) (dst pktSize : ℕ) :
    s.updateBufferingCount dst pktSize true =
      .ok { s with
        buffering := Function.update s.buffering dst (some (countIn (s.buffering dst) pktSize)) } := by
  unfold updateBufferingCount countIn
  cases s.buffering dst with
  | none => rfl
  | some bytes => simp only [if_true]

theorem holdVoq_outcome {g : ℕ} {p : PacketUnit} {fits : Bool}
    (rule : cfg.dst2group p.dst = some (.group g))
    (ended : s.checkDstWin cfg p.dst p.size = .ok (t, fits)) (closed : fits = true →
      s.getBufferDst p.dst ≠ 0) :
    Outcome (fun u => ∃ g voqId G, Held cfg s u g voqId G p) (Assert.OfArrival cfg s p)
      (t.holdVoq cfg p) := by
  have only := checkDstWin_only ended
  have tested := only.rewindowed
  have blocked : s.holds cfg p = true := by
    unfold holds
    rw [ended]
    cases fits with
    | false => rfl
    | true => simpa [Except.toOption] using closed rfl
  unfold holdVoq
  rw [rule]
  dsimp only
  have same : t.groups = s.groups := tested.sameVoqs.groups
  cases voq : (t.groups g).getVOQ (cfg.group g) p.dst with
  | error e => exact .inr ⟨g, rule, same ▸ voq⟩
  | ok r =>
    obtain ⟨G, voqId⟩ := r
    have counted := updateBufferingCount_add ((t.setGroup g G).enqueue g voqId p) p.dst p.size
    change Outcome _ _ (((t.setGroup g G).enqueue g voqId p).updateBufferingCount p.dst p.size true)
    rw [counted]
    refine ⟨g, voqId, G, blocked, rule, same ▸ voq, ?_, ?_, ?_, ⟨t, fits, ended, rfl, closed⟩,
      only.egressWins, tested.sent, tested.egressCache, tested.nxtDataPsn,
      sameAcks_trans tested.sameAcks ⟨rfl, rfl, rfl, rfl, rfl, rfl⟩⟩
    · simp only [enqueue, setGroup, pkts, Function.update_self, Function.update_idem, same]
    · exact congrArg (fun b => update₂ b g voqId (add32 (b g voqId) p.size))
        tested.sameVoqs.voqBuffer
    · have known : ((t.setGroup g G).enqueue g voqId p).buffering = s.buffering :=
        tested.sameVoqs.buffering
      dsimp only
      rw [known]

theorem passWin_outcome {g : ℕ} {p : PacketUnit} (rule : cfg.dst2group p.dst = some (.group g))
    (empty : s.getBufferDst p.dst = 0) (opens : s.checkDstWin cfg p.dst p.size = .ok (t, true)) :
    Outcome (fun r => ∃ p', Passed cfg s (if r.2.2 then r.1.doSwitchSend r.2.1 else r.1) p p')
      Assert.OfWindow (t.passWin cfg p) := by
  unfold passWin
  have debits := outcome_call (updateDstWin_outcome cfg t p.dst p.size false)
  refine outcome_bind debits fun u called => ?_
  obtain ⟨ended, debited⟩ := called
  have only := onlyWins_trans (checkDstWin_only opens) debited
  have written := only.rewindowed
  have acks := sameAcks_tagPsn cfg u p
  have voqs := sameVoqs_tagPsn cfg u p
  have sent := tagPsn_sent cfg u p
  have cache := tagPsn_egressCache cfg u p
  have bare := tagPsn_bare cfg u p
  have windows := tagPsn_windows cfg u p
  have numbered := tagged_tagPsn cfg u p
  generalize u.tagPsn cfg p = tagged at *
  obtain ⟨v, p'⟩ := tagged
  dsimp only at acks voqs sent cache bare windows numbered ⊢
  obtain ⟨route, acks', voqs', psns, wins⟩ := doDequeueVOQ_forwards cfg v p'
  have passed : Passed cfg s (v.doDequeueVOQ cfg p') p p' := {
    grouped := ⟨g, rule⟩
    none := empty
    bare := bare
    wins := ⟨t, t, u, opens, rfl, ended, wins.trans windows.1⟩
    route := route.congr (sent.trans written.sent) (cache.trans written.egressCache)
      (windows.2.trans only.egressWins)
    tagged := numbered.congr written.nxtDataPsn psns
    voqs := ⟨voqs'.groups.trans (voqs.groups.trans written.sameVoqs.groups),
      voqs'.voqBuffer.trans (voqs.voqBuffer.trans written.sameVoqs.voqBuffer),
      voqs'.buffering.trans (voqs.buffering.trans written.sameVoqs.buffering)⟩
    acks := sameAcks_trans written.sameAcks (sameAcks_trans acks acks') }
  unfold doDequeueVOQ at passed
  split
  · rename_i passes
    rw [if_pos passes] at passed
    exact ⟨p', passed⟩
  · rename_i waits
    rw [if_neg waits] at passed
    exact ⟨p', passed⟩

theorem sendToDev_outcome (cfg : Config) (s : State) (p : PacketUnit) :
    Outcome (fun t => Arrived cfg { s with admitted := s.admitted ++ [p] } t p)
      (Assert.OfArrival cfg s p) (s.sendToDev cfg p) := by
  unfold sendToDev
  change Outcome _ (Assert.OfArrival cfg { s with admitted := s.admitted ++ [p] } p) _
  generalize { s with admitted := s.admitted ++ [p] } = s
  have checked : Outcome (fun r => Arrived cfg s (if r.2.2 then r.1.doSwitchSend r.2.1 else r.1) p)
      (Assert.OfArrival cfg s p) (s.checkVOQWin cfg p) := by
    unfold checkVOQWin
    refine outcome_bind (outcome_mono (shouldIgnore_outcome cfg p.dst) (fun _ h => h) fun _ =>
      .inl) fun ignore known => ?_
    cases ignore with
    | true => exact .inl ⟨known, rfl⟩
    | false =>
      obtain ⟨g, rule⟩ := known
      have tests := outcome_call (checkDstWin_outcome cfg s p.dst p.size)
      refine outcome_bind (outcome_mono tests (fun _ h => h) fun _ => .inl) fun r called => ?_
      obtain ⟨t, fits⟩ := r
      obtain ⟨ended, tested⟩ := called
      have same : t.getBufferDst p.dst = s.getBufferDst p.dst :=
        congrArg (fun b => (b p.dst).getD 0) tested.rewindowed.sameVoqs.buffering
      dsimp only at ended tested ⊢
      split
      · rename_i opens
        rw [Bool.and_eq_true, decide_eq_true_eq, same] at opens
        obtain ⟨rfl, empty⟩ := opens
        exact outcome_mono (passWin_outcome rule empty ended) (fun _ h => .inr (.inl h)) fun _ =>
          .inl
      · rename_i closed
        rw [same] at closed
        have waits : fits = true → s.getBufferDst p.dst ≠ 0 := by
          rintro rfl empty
          exact closed (by simp [empty])
        exact outcome_bind (holdVoq_outcome rule ended waits) fun u held => .inr (.inr held)
  refine outcome_bind checked fun r after => ?_
  obtain ⟨t, p', passes⟩ := r
  cases passes with
  | false => exact after
  | true => exact after

end State

end Floodgate

end Pyrrha

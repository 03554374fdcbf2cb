import Pyrrha.Floodgate.Loops

/-!
SYN recovery. The timer of a device starts with the first `SwitchACK` it receives, and the SYN lists
the destinations whose last `SwitchACK` is at most a timeout old: those that are overdue are the
ones it leaves out.
-/

namespace Pyrrha
open Lib

namespace Floodgate

variable {cfg : Config} {s t : State} {dev d dst inDev : ℕ} {acktag : ℕ → ℕ}

/-- Time moves on to the next event at most, and a timer runs out when it is due. -/
def Event.Timely (s : State) : Event → Prop
  | .advance t => s.now ≤ t ∧ ∀ dev < switchScale, ∀ due ∈ s.synTimeoutEvent dev, t ≤ due
  | .synTimeout dev => s.synTimeoutEvent dev = some s.now
  | _ => True

instance (s : State) (ev : Event) : Decidable (ev.Timely s) :=
  match ev with
  | .advance t => inferInstanceAs (Decidable (s.now ≤ t ∧
      ∀ dev < switchScale, ∀ due ∈ s.synTimeoutEvent dev, t ≤ due))
  | .synTimeout dev => inferInstanceAs (Decidable (s.synTimeoutEvent dev = some s.now))
  | .data _ | .switchAck .. => isTrue trivial

namespace State

/-- Bytes of `d` sent through `dev` have not been acknowledged. -/
def Unacked (s : State) (dev d : ℕ) : Prop := s.rcvAckPsn dev d < s.nxtDataPsn dev d

/-- The last `SwitchACK` of `d` is older than the timeout. -/
def Overdue (cfg : Config) (s : State) (dev d : ℕ) : Prop :=
  s.lstrcvAckTime dev d + cfg.synTimeout < s.now

/-- The last `SwitchACK` of `d` is younger than the timeout. -/
def Recent (cfg : Config) (s : State) (dev d : ℕ) : Prop :=
  s.now < s.lstrcvAckTime dev d + cfg.synTimeout

/-- The timer of a device runs now. -/
def SynDue (s : State) (dev : ℕ) : Prop := s.synTimeoutEvent dev = some s.now

/-- The SYN recovery of a device: while a destination is overdue the timer is pending; and when it
runs, it sends a SYN with the counters of each overdue destination, and none with an entry for a
destination acknowledged recently. -/
structure SynRecovers (cfg : Config) (s : State) (dev : ℕ) : Prop where
  pending : ∀ d < cfg.hostNum, s.Unacked dev d → s.Overdue cfg dev d →
    (s.synTimeoutEvent dev).isSome = true
  overdue : s.SynDue dev → ∀ d < cfg.hostNum, s.Unacked dev d → s.Overdue cfg dev d →
    ∃ syntag : SynTag, (s.synTimeout cfg dev).synSent = s.synSent ++ [(dev, syntag)] ∧
      syntag d = (s.rcvAckPsn dev d, s.nxtDataPsn dev d)
  recent : s.SynDue dev → ∀ d < cfg.hostNum, s.Recent cfg dev d → ∀ syntag : SynTag,
    (s.synTimeout cfg dev).synSent = s.synSent ++ [(dev, syntag)] → syntag d = (0, 0)

/-- A `SwitchACK` has come that counts for a device. -/
def Heard (cfg : Config) (dev : ℕ) (evs : List Event) : Prop :=
  ∃ acktag dst inDev, Event.switchAck acktag dst inDev ∈ evs ∧ cfg.psnRow inDev dst = dev

/-- A device with an overdue destination has heard of its neighbour before; and whenever its timer
runs, no destination with unacknowledged bytes is overdue, and none has been acknowledged recently,
unless all those that are not overdue have never been acknowledged at all. -/
structure SynIdle (cfg : Config) (evs : List Event) (s : State) (dev : ℕ) : Prop where
  heard : ∀ d < cfg.hostNum, s.Unacked dev d → s.Overdue cfg dev d → Heard cfg dev evs
  overdue : s.SynDue dev → ∀ d < cfg.hostNum, s.Unacked dev d → ¬s.Overdue cfg dev d
  recent : s.SynDue dev → ∀ d < cfg.hostNum, s.Unacked dev d → ¬s.Overdue cfg dev d →
    0 < s.rcvAckPsn dev d → ∀ i < cfg.hostNum, s.Unacked dev i → ¬s.Recent cfg dev i

/-! ### The tag -/

theorem getSwitchSYNTag_overdue (late : s.Overdue cfg dev d) :
    s.getSwitchSYNTag cfg dev d = (0, 0) :=
  if_neg fun listed => absurd listed.2.2 (Nat.not_le.mpr late)

theorem getSwitchSYNTag_listed (host : d < cfg.hostNum) (unacked : s.Unacked dev d)
    (early : ¬s.Overdue cfg dev d) :
    s.getSwitchSYNTag cfg dev d = (s.rcvAckPsn dev d, s.nxtDataPsn dev d) :=
  if_pos ⟨host, unacked, Nat.not_lt.mp early⟩

theorem getSwitchSYNTag_acked (acked : ¬s.Unacked dev d) : s.getSwitchSYNTag cfg dev d = (0, 0) :=
  if_neg fun listed => acked listed.2.1

theorem synHasSize_iff : synHasSize cfg (s.getSwitchSYNTag cfg dev) = true ↔
    ∃ d < cfg.hostNum, s.Unacked dev d ∧ ¬s.Overdue cfg dev d ∧ 0 < s.rcvAckPsn dev d := by
  unfold synHasSize
  rw [List.any_eq_true]
  constructor
  · rintro ⟨d, member, counts⟩
    have host := List.mem_range.mp member
    have pos := of_decide_eq_true counts
    by_cases unacked : s.Unacked dev d
    · by_cases late : s.Overdue cfg dev d
      · rw [getSwitchSYNTag_overdue late] at pos
        exact absurd pos (Nat.lt_irrefl 0)
      · rw [getSwitchSYNTag_listed host unacked late] at pos
        exact ⟨d, host, unacked, late, pos⟩
    · rw [getSwitchSYNTag_acked unacked] at pos
      exact absurd pos (Nat.lt_irrefl 0)
  · rintro ⟨d, host, unacked, early, pos⟩
    refine ⟨d, List.mem_range.mpr host, decide_eq_true ?_⟩
    rw [getSwitchSYNTag_listed host unacked early]
    exact pos

theorem synTimeout_sent {syntag : SynTag} : (s.synTimeout cfg dev).synSent = s.synSent ++
    [(dev, syntag)] ↔
    synHasSize cfg (s.getSwitchSYNTag cfg dev) = true ∧ syntag = s.getSwitchSYNTag cfg dev := by
  unfold synTimeout
  dsimp only
  split
  · rename_i sized
    simp [sized, eq_comm]
  · rename_i empty
    simp [empty]

/-! ### The timer -/

theorem timer_rule (table : ℕ → Option ℕ) :
    ReleaseRule cfg (fun t => t.synTimeoutEvent = table) fun _ => True where
  one s g voqId before := by
    refine outcome_mono (checkAndSendOne_outcome cfg s g voqId) (fun r after => ?_) fun _ _ =>
      trivial
    split at after
    · obtain ⟨p, released⟩ := after
      exact released.acks.synTimeoutEvent.trans before
    · exact after.only.rewindowed.sameAcks.synTimeoutEvent.trans before
  cached s dev top rest before _ _ :=
    (sentCached cfg s dev top rest).acks.synTimeoutEvent.trans before
  known := trivial
  found _ _ _ _ _ _ := .inr trivial

theorem updateWin_timer {u : State} {table : ℕ → Option ℕ} (same : u.synTimeoutEvent = table)
    (dst credit inDev : ℕ) : Outcome (fun t => t.synTimeoutEvent = table) (fun _ => True)
      (u.updateWin cfg dst credit inDev true) := by
  refine outcome_mono (updateWin_outcome cfg u dst credit inDev true)
    (fun t written => ?_) fun _ _ => trivial
  exact written.sameAcks.synTimeoutEvent.trans same

theorem resumeVOQWin_sameTimer {keep : Bool}
    (call : s.resumeVOQWin cfg acktag dst inDev = .ok (t, keep)) : t.synTimeoutEvent =
      (s.updateSynTime cfg (cfg.psnRow inDev dst) dst acktag).synTimeoutEvent := by
  have kept : Outcome (fun r => r.1.synTimeoutEvent =
      (s.updateSynTime cfg (cfg.psnRow inDev dst) dst acktag).synTimeoutEvent) (fun _ => True)
      (s.resumeVOQWin cfg acktag dst inDev) := by
    apply (timer_rule _).resumeVOQWin rfl
    · intro u i _ before
      unfold recoverDst
      dsimp only
      split
      · split
        · split
          · exact updateWin_timer (u := u.setRcvAck _ i _) before i _ inDev
          · exact updateWin_timer before i _ inDev
        · exact updateWin_timer before i _ inDev
      · exact before
    · intro u before
      unfold resumeDst
      dsimp only
      split
      · split
        · exact updateWin_timer (u := u.setRcvAck _ dst _) before dst _ inDev
        · exact updateWin_timer before dst _ inDev
      · exact updateWin_timer before dst _ inDev
  have after := outcome_result kept call
  exact after

/-- A `SwitchACK` starts the timer of its device and leaves the others. -/
theorem resumeVOQWin_timer (timeout : 0 < cfg.synTimeout) {keep : Bool}
    (call : s.resumeVOQWin cfg acktag dst inDev = .ok (t, keep)) :
    (t.synTimeoutEvent dev).isSome ↔ (s.synTimeoutEvent dev).isSome ∨
      cfg.psnRow inDev dst = dev := by
  have active : ¬(cfg.absolutePsn = false ∨ cfg.synTimeout = 0) := by
    rintro (relative | zero)
    · exact absurd ((cfg.syn_mode timeout).symm.trans relative) (by decide)
    · omega
  have noted : (s.noteAckTimes cfg (cfg.psnRow inDev dst) dst acktag).synTimeoutEvent =
      s.synTimeoutEvent := by
    unfold noteAckTimes
    split <;> rfl
  rw [resumeVOQWin_sameTimer call]
  unfold updateSynTime startTimer
  rw [if_neg active, noted]
  split
  · rename_i stopped
    dsimp only
    rw [Function.update_apply]
    split
    · rename_i here
      simp [here]
    · rename_i other
      simp [Ne.symm other]
  · rename_i runs
    rw [noted]
    have started : (s.synTimeoutEvent (cfg.psnRow inDev dst)).isSome = true := by
      rwa [Option.isNone_iff_eq_none, ← ne_eq, Option.ne_none_iff_isSome] at runs
    constructor
    · exact .inl
    · rintro (before | rfl)
      · exact before
      · exact started

theorem step_timer (timeout : 0 < cfg.synTimeout) {ev : Event} (timely : ev.Timely s)
    (call : s.step cfg ev = .ok t) :
    (t.synTimeoutEvent dev).isSome ↔ (s.synTimeoutEvent dev).isSome ∨ Heard cfg dev [ev] := by
  have silent : (∀ acktag dst inDev, ev ≠ .switchAck acktag dst inDev) → ¬Heard cfg dev [ev] := by
    rintro other ⟨acktag, dst, inDev, member, -⟩
    exact other acktag dst inDev (List.mem_singleton.mp member).symm
  cases ev with
  | data p =>
    have same : t.synTimeoutEvent = s.synTimeoutEvent := by
      rcases outcome_result (sendToDev_outcome cfg s p) call with
        ignored | ⟨p', passed⟩ | ⟨g, voqId, G, held⟩
      · rw [ignored.eq]
        rfl
      · exact passed.acks.synTimeoutEvent
      · exact held.acks.synTimeoutEvent
    simp [same, silent]
  | switchAck acktag dst inDev =>
    obtain ⟨keep, resumed⟩ := step_switchAck call
    rw [resumeVOQWin_timer timeout resumed]
    simp [Heard]
  | advance time =>
    obtain rfl := Except.ok.inj call
    simp [silent]
  | synTimeout i =>
    obtain rfl := Except.ok.inj call
    have due : s.synTimeoutEvent i = some s.now := timely
    have again : (s.synTimeout cfg i).synTimeoutEvent =
        Function.update s.synTimeoutEvent i (some (s.now + cfg.synTimeout)) := by
      unfold synTimeout
      dsimp only
      split <;> rfl
    rw [again, Function.update_apply]
    split
    · rename_i here
      simp [here, due]
    · simp [silent]

theorem run_timer (timeout : 0 < cfg.synTimeout) {evs : List Event}
    (ends : run cfg (fun s ev => ev.Timely s) s evs = some t) :
    (t.synTimeoutEvent dev).isSome ↔ (s.synTimeoutEvent dev).isSome ∨ Heard cfg dev evs := by
  induction evs generalizing s with
  | nil =>
    obtain rfl := Option.some.inj ends
    simp [Heard]
  | cons ev evs ih =>
    unfold run at ends
    split at ends
    · rename_i timely
      split at ends
      · rename_i u call
        rw [ih ends, step_timer timeout timely call]
        simp only [Heard, List.mem_cons, List.not_mem_nil, or_false, or_and_right,
          exists_or, or_assoc]
      · cases ends
    · cases ends

end State

/-- SYN recovery does what it is for just when there is nothing to recover. -/
theorem syn_recovers_iff {evs : List Event} (timeout : 0 < cfg.synTimeout)
    (ends : State.run cfg (fun s ev => ev.Timely s) (State.initial cfg) evs = some s) :
    s.SynRecovers cfg dev ↔ s.SynIdle cfg evs dev := by
  have pending : (s.synTimeoutEvent dev).isSome = true ↔ State.Heard cfg dev evs := by
    rw [State.run_timer timeout ends]
    simp [State.initial]
  constructor
  · intro right
    refine ⟨fun d host unacked late => pending.mp (right.pending d host unacked late),
      fun due d host unacked late => ?_,
      fun due d host unacked early pos i host' unacked' recent => ?_⟩
    · obtain ⟨syntag, sent, entry⟩ := right.overdue due d host unacked late
      obtain ⟨-, rfl⟩ := State.synTimeout_sent.mp sent
      rw [State.getSwitchSYNTag_overdue late] at entry
      have next := (Prod.mk.inj entry).2
      unfold State.Unacked at unacked
      omega
    · have sized := State.synHasSize_iff.mpr ⟨d, host, unacked, early, pos⟩
      have entry := right.recent due i host' recent _ (State.synTimeout_sent.mpr ⟨sized, rfl⟩)
      have early' : ¬s.Overdue cfg dev i := by
        unfold State.Recent at recent
        unfold State.Overdue
        omega
      rw [State.getSwitchSYNTag_listed host' unacked' early'] at entry
      have next := (Prod.mk.inj entry).2
      unfold State.Unacked at unacked'
      omega
  · intro idle
    refine ⟨fun d host unacked late => pending.mpr (idle.heard d host unacked late),
      fun due d host unacked late => absurd late (idle.overdue due d host unacked),
        fun due i host' recent syntag sent => ?_⟩
    obtain ⟨sized, rfl⟩ := State.synTimeout_sent.mp sent
    obtain ⟨d, host, unacked, early, pos⟩ := State.synHasSize_iff.mp sized
    by_cases unacked' : s.Unacked dev i
    · exact absurd recent (idle.recent due d host unacked early pos i host' unacked')
    · exact State.getSwitchSYNTag_acked unacked'

/-- The DST mode with a timeout of 10. -/
def synConfig : Config :=
  { smallConfig .switchDstCredit true (dstCredit_psn true) 5000 with
    synTimeout := 10
    syn_mode := fun _ => rfl }

/-- The only `SwitchACK` of a packet is lost: 100 later no timer is pending. Another packet follows
one that was acknowledged: when the timer comes round a second time, the SYN leaves it out and is
not sent. -/
theorem syn_lost : (∃ s, State.Reachable synConfig (fun s ev => ev.Timely s) s ∧ s.Unacked 1 1 ∧
      s.Overdue synConfig 1 1 ∧ s.synTimeoutEvent 1 = none ∧ ¬s.SynRecovers synConfig 1) ∧
    ∃ s, State.Reachable synConfig (fun s ev => ev.Timely s) s ∧ s.Unacked 1 1 ∧
    s.Overdue synConfig 1 1 ∧
      s.synTimeoutEvent 1 = some s.now ∧ (s.synTimeout synConfig 1).synSent = s.synSent ∧
      ¬s.SynRecovers synConfig 1 := by
  constructor
  · obtain ⟨s, reach, unacked, late, idle⟩ :
      ∃ s, State.Reachable synConfig (fun s ev => ev.Timely s) s ∧
        s.rcvAckPsn 1 1 < s.nxtDataPsn 1 1 ∧ s.lstrcvAckTime 1 1 + 10 < s.now ∧
          s.synTimeoutEvent 1 = none :=
      State.exists_run [.data (smallPacket 0 999), .advance 100] (by decide +kernel)
    refine ⟨s, reach, unacked, late, idle, fun right => ?_⟩
    have pending := right.pending 1 (by decide) unacked late
    rw [idle] at pending
    cases pending
  · let evs : List Event :=
      [.data (smallPacket 0 999), .switchAck (fun _ => 1000) 1 1, .data (smallPacket 1 999),
      .advance 10, .synTimeout 1, .advance 20]
    obtain ⟨s, reach, unacked, late, due, unsized⟩ :
      ∃ s, State.Reachable synConfig (fun s ev => ev.Timely s) s ∧
        s.rcvAckPsn 1 1 < s.nxtDataPsn 1 1 ∧ s.lstrcvAckTime 1 1 + 10 < s.now ∧
          s.synTimeoutEvent 1 = some s.now ∧
        State.synHasSize synConfig (s.getSwitchSYNTag synConfig 1) = false :=
      State.exists_run evs (by decide +kernel)
    refine ⟨s, reach, unacked, late, due, ?_, fun right => ?_⟩
    · unfold State.synTimeout
      dsimp only
      rw [unsized]
      rfl
    · obtain ⟨syntag, sent, -⟩ := right.overdue due 1 (by decide) unacked late
      have sized := (State.synTimeout_sent.mp sent).1
      rw [unsized] at sized
      cases sized

/-- The timer of a device that has been heard of runs at 10, when the last `SwitchACK` is just a
timeout old: the SYN has the counters of the packet that is not acknowledged. -/
theorem syn_recovers_iff_sent : ∃ evs s,
    State.run synConfig (fun s ev => ev.Timely s) (State.initial synConfig) evs = some s ∧
    s.SynDue 1 ∧ s.Unacked 1 1 ∧ State.synHasSize synConfig (s.getSwitchSYNTag synConfig 1) = true ∧
      s.SynRecovers synConfig 1 := by
  let evs : List Event := [.data (smallPacket 0 999), .switchAck (fun _ => 1000) 1 1,
    .data (smallPacket 1 999), .advance 10]
  have ends : ((State.run synConfig (fun s ev => ev.Timely s) (State.initial synConfig) evs).any
    fun s => decide (s.synTimeoutEvent 1 = some s.now ∧ s.rcvAckPsn 1 1 < s.nxtDataPsn 1 1 ∧
        State.synHasSize synConfig (s.getSwitchSYNTag synConfig 1) = true ∧
        ∀ d < (2 : ℕ), s.lstrcvAckTime 1 d + 10 = s.now)) = true := by decide +kernel
  obtain ⟨s, run, facts⟩ := (Option.any_eq_true _ _).mp ends
  obtain ⟨due, unacked, sized, now⟩ := of_decide_eq_true facts
  refine ⟨evs, s, run, due, unacked, sized, (syn_recovers_iff (by decide) run).mpr ?_⟩
  have late : ∀ d < 2, ¬s.Overdue synConfig 1 d := fun d host => Nat.not_lt.mpr (now d host).ge
  have recent : ∀ d < 2, ¬s.Recent synConfig 1 d := fun d host => Nat.not_lt.mpr (now d host).le
  exact ⟨fun d host _ overdue => absurd overdue (late d host), fun _ d host _ => late d host,
    fun _ d host _ _ _ i host' _ => recent i host'⟩

end Floodgate

end Pyrrha

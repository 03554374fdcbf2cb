import Mathlib.Algebra.Order.Ring.Rat
import Mathlib.Data.Rat.Cast.Order
import Mathlib.Tactic.Linarith
import Pyrrha.Floodgate.CreditSends
import Pyrrha.Floodgate.Run

/-!
The credit timer over whole runs. Time never passes the moment the timer is due, so no last send
time is ever older than the interval, and the assert of `ResetCreditTimer` holds.
-/

namespace Pyrrha
open Lib

namespace Floodgate

namespace Credit

variable {cfg : Config} {s t : State}

/-- What can happen to a switch as downstream. The `SwitchACK`s a dequeue or the timer sends are
part of these events; the others answer a SYN. -/
inductive Event (cfg : Config) where
  | switchNotifyDequeue (p : Dequeued cfg)
  | sendAccSwitchACK (dev : ℕ) (acktag : ℕ → ℕ)
  | sendSwitchACK (inDev : ℕ) (dst : Fin cfg.hostNum) (size : ℕ)
  | creditTimeout
  | updateBufferingCount (dst bytes : ℕ)
  | advance (t : ℕ)

def State.expire (cfg : Config) (s : State) : Checked State :=
  match s.creditTimer with
  | some timer => { s with creditTimer := none }.creditTimeout cfg timer.dev timer.dst
  | none => .ok s

def State.step (cfg : Config) (s : State) : Event cfg → Checked State
  | .switchNotifyDequeue p => s.switchNotifyDequeue cfg p
  | .sendAccSwitchACK dev acktag => s.sendAccSwitchACK cfg dev acktag
  | .sendSwitchACK inDev dst size => s.sendSwitchACK cfg inDev dst size
  | .creditTimeout => s.expire cfg
  | .updateBufferingCount dst bytes =>
      .ok { s with buffering := Function.update s.buffering dst bytes }
  | .advance t => .ok { s with now := t }

/-- Time moves on to the next event at most, and the timer runs out when it is due. -/
def Event.Timely (s : State) : Event cfg → Prop
  | .advance t => s.now ≤ t ∧ ∀ timer ∈ s.creditTimer, t ≤ timer.due
  | .creditTimeout => ∃ timer ∈ s.creditTimer, timer.due = s.now
  | _ => True

/-- No packet is dequeued, and no `SwitchACK` sent, at time 0. -/
def Event.Started (s : State) : Event cfg → Prop
  | .switchNotifyDequeue _ | .sendAccSwitchACK .. | .sendSwitchACK .. => 0 < s.now
  | _ => True

/-- The states of the runs all of whose steps satisfy `allowed`. -/
inductive State.Reachable (cfg : Config) (allowed : State → Event cfg → Prop) : State → Prop where
  | initial : Reachable cfg allowed {}
  | step {s t : State} {ev : Event cfg} : Reachable cfg allowed s → allowed s ev →
      s.step cfg ev = .ok t → Reachable cfg allowed t

/-- The timer does what it is for: it is pending for the earliest last send time, an interval later;
no allowed step stops in `ResetCreditTimer`; who has something to get has a last send time; and a
timeout moves the one it is for. -/
structure State.TimerRight (cfg : Config) (allowed : State → Event cfg → Prop) (s : State) :
    Prop where
  armed : ∀ entry, s.entryTime entry ≠ 0 → ∃ timer, s.creditTimer = some timer ∧
    IsEarliest s.entryTime (timer.dev, timer.dst) ∧
    (timer.due : ℚ) = s.ingressLastTime timer.dev timer.dst + 1000 * cfg.interval ∧
      s.now ≤ timer.due
  covered : ∀ dev dst, s.Uncredited cfg dev dst → s.ingressLastTime dev (cfg.entry dst) ≠ 0
  checked : ∀ ev, allowed s ev → s.step cfg ev ≠ .error .resetCreditTimer
  fires : ∀ timer t, s.creditTimer = some timer → timer.due = s.now →
    s.step cfg .creditTimeout = .ok t →
    s.ingressLastTime timer.dev timer.dst < t.ingressLastTime timer.dev timer.dst

/-! ### Runs -/

/-- What holds in every state reached. -/
structure State.Good (cfg : Config) (s : State) : Prop where
  times : s.Times cfg
  armed : s.Armed cfg
  covered : ∀ dev dst, s.Uncredited cfg dev dst → s.ingressLastTime dev (cfg.entry dst) ≠ 0

/-- The steps of a run that starts after time 0. -/
def Event.InTime (s : State) (ev : Event cfg) : Prop := ev.Timely s ∧ ev.Started s

theorem initial_good : ({} : State).Good cfg := by
  refine ⟨⟨fun _ _ => Nat.le_refl 0, nofun, nofun, nofun⟩, .inl ⟨fun _ => rfl, rfl⟩,
    fun dev dst credits => ?_⟩
  unfold State.Uncredited at credits
  split at credits <;> cases credits

theorem armed_pending {timer : CreditTimer} (armed : s.Armed cfg)
    (pending : s.creditTimer = some timer) : IsEarliest s.entryTime (timer.dev, timer.dst) ∧
      timer.due = s.ingressLastTime timer.dev timer.dst + microSeconds cfg.interval := by
  rcases armed with ⟨-, none⟩ | ⟨entry, first, timed⟩
  · rw [none] at pending
    cases pending
  · rw [timed] at pending
    obtain rfl := Option.some.inj pending
    exact ⟨first, rfl⟩

theorem expire_moves {timer : CreditTimer} (on : cfg.interval ≠ 0) (times : s.Times cfg)
    (armed : s.Armed cfg) (pending : s.creditTimer = some timer) :
    Outcome (fun t => s.Moves cfg t ∧ t.ingressLastTime timer.dev timer.dst = s.now) Assert.Other
      (s.expire cfg) := by
  have set := (armed_pending armed pending).1.set
  have idle : { s with creditTimer := none }.Times cfg := times_congr times rfl rfl
  unfold State.expire
  rw [pending]
  -- the timer is not pending while its function runs; all else is as before
  exact outcome_weaken (creditTimeout_keeps on idle set) fun t sent =>
    ⟨⟨sent.1.times, sent.1.armed, sent.1.kept, sent.1.covered⟩, sent.2⟩

theorem advance_moves {now : ℕ} (times : s.Times cfg) (armed : s.Armed cfg) (later : s.now ≤ now)
    (due : ∀ timer ∈ s.creditTimer, now ≤ timer.due) : s.Moves cfg { s with now := now } := by
  refine ⟨⟨fun x y => (times.past x y).trans later, times.inside, times.column, fun x y set => ?_⟩,
    armed_congr armed rfl rfl, fun _ _ set => set, fun _ _ credits => .inl credits⟩
  rcases armed with ⟨unset, -⟩ | ⟨entry, first, timed⟩
  · exact absurd (unset (x, y)) set
  · have le := due _ timed
    have least := first.least (x, y) set
    exact le.trans (Nat.add_le_add_right least _)

theorem step_moves {ev : Event cfg} (on : cfg.interval ≠ 0)
    (credit : cfg.ackMode ≠ .hostPerPacketAck)
    (times : s.Times cfg) (armed : s.Armed cfg) (inTime : ev.InTime s) :
    Outcome (s.Moves cfg) Assert.Other (s.step cfg ev) := by
  cases ev with
  | switchNotifyDequeue p =>
    exact outcome_weaken (switchNotifyDequeue_keeps on credit times armed inTime.2) fun _ sent =>
      sent.toMoves
  | sendAccSwitchACK dev acktag =>
    exact outcome_weaken (sendAccSwitchACK_keeps on times inTime.2) fun _ sent => sent.1.toMoves
  | sendSwitchACK inDev dst size =>
    exact outcome_weaken (sendSwitchACK_keeps on times inTime.2 dst.isLt) fun _ sent =>
      sent.1.toMoves
  | creditTimeout =>
    obtain ⟨⟨timer, pending, -⟩, -⟩ := inTime
    exact outcome_weaken (expire_moves on times armed pending) fun _ sent => sent.1
  | updateBufferingCount dst bytes =>
    exact ⟨times_congr times rfl rfl, armed_congr armed rfl rfl, fun _ _ set => set,
      fun _ _ credits => .inl credits⟩
  | advance t => exact advance_moves times armed inTime.1.1 inTime.1.2

theorem good_of_moves (good : s.Good cfg) (moves : s.Moves cfg t) : t.Good cfg := by
  refine ⟨moves.times, moves.armed, fun x y credits => ?_⟩
  rcases moves.covered x y credits with before | set
  · exact moves.kept x _ (good.covered x y before)
  · exact set

theorem step_good {ev : Event cfg} (on : cfg.interval ≠ 0)
    (credit : cfg.ackMode ≠ .hostPerPacketAck) (good : s.Good cfg) (inTime : ev.InTime s) :
    Outcome (State.Good cfg) Assert.Other (s.step cfg ev) :=
  outcome_weaken (step_moves on credit good.times good.armed inTime) fun _ => good_of_moves good

theorem reachable_good (on : cfg.interval ≠ 0) (credit : cfg.ackMode ≠ .hostPerPacketAck)
    (reach : State.Reachable cfg (fun s ev => ev.InTime s) s) : s.Good cfg := by
  induction reach with
  | initial => exact initial_good
  | step _ inTime call ih => exact outcome_result (step_good on credit ih inTime) call

/-! ### The interval -/

theorem microSeconds_exact {us : ℚ} : (microSeconds us : ℚ) = 1000 * us ↔ ∃ n : ℕ, us = n := by
  constructor
  · intro exact
    refine ⟨us.floor.toNat, ?_⟩
    unfold microSeconds at exact
    push_cast at exact
    linarith
  · rintro ⟨n, rfl⟩
    have floor : (n : ℚ).floor = n := by simpa using Rat.floor_intCast n
    unfold microSeconds
    rw [floor, Int.toNat_natCast]
    push_cast
    exact mul_comm _ _

/-- In a run that starts after time 0 the credit timer is right exactly if the interval is a whole
number of microseconds, or nothing has happened yet. -/
theorem creditTimer_right_iff (on : 0 < cfg.interval) (credit : cfg.ackMode ≠ .hostPerPacketAck)
    (reach : State.Reachable cfg (fun s ev => ev.InTime s) s) :
    s.TimerRight cfg (fun s ev => ev.InTime s) ↔
      (∃ n : ℕ, cfg.interval = n) ∨ ∀ entry, s.entryTime entry = 0 := by
  have good := reachable_good on.ne' credit reach
  constructor
  · intro right
    by_cases unset : ∀ entry, s.entryTime entry = 0
    · exact .inr unset
    · left
      obtain ⟨entry, set⟩ := not_forall.mp unset
      obtain ⟨timer, pending, -, due, -⟩ := right.armed entry set
      rw [(armed_pending good.armed pending).2, Nat.cast_add] at due
      exact microSeconds_exact.mp (add_left_cancel due)
  · intro whole
    refine ⟨fun entry set => ?_, good.covered, fun ev inTime stops => ?_,
      fun timer t pending due call => ?_⟩
    · have exact := whole.resolve_right fun unset => set (unset entry)
      rcases good.armed with ⟨unset, -⟩ | ⟨first, earliest, timed⟩
      · exact absurd (unset entry) set
      · refine ⟨_, timed, earliest, ?_, good.times.fresh _ _ earliest.set⟩
        rw [Nat.cast_add, microSeconds_exact.mpr exact]
        rfl
    · exact outcome_stop (step_good on.ne' credit good inTime) stops rfl
    · obtain ⟨earliest, timed⟩ := armed_pending good.armed pending
      have exact := whole.resolve_right fun unset => earliest.set (unset _)
      have pos : (0 : ℚ) < microSeconds cfg.interval := by
        rw [microSeconds_exact.mpr exact]
        linarith
      have last := (outcome_result (expire_moves on.ne' good.times good.armed pending) call).2
      rw [last, ← due, timed]
      exact Nat.lt_add_of_pos_right (Nat.cast_pos.mp pos)

/-! ### Two runs -/

instance Event.decTimely (s : State) (ev : Event cfg) : Decidable (ev.Timely s) :=
  match ev with
  | .advance t => inferInstanceAs (Decidable (s.now ≤ t ∧ ∀ timer ∈ s.creditTimer, t ≤ timer.due))
  | .creditTimeout => inferInstanceAs (Decidable (∃ timer ∈ s.creditTimer, timer.due = s.now))
  | .switchNotifyDequeue _ | .sendAccSwitchACK .. | .sendSwitchACK .. | .updateBufferingCount .. =>
      isTrue trivial

instance Event.decStarted (s : State) (ev : Event cfg) : Decidable (ev.Started s) :=
  match ev with
  | .switchNotifyDequeue _ | .sendAccSwitchACK .. | .sendSwitchACK .. =>
      inferInstanceAs (Decidable (0 < s.now))
  | .creditTimeout | .updateBufferingCount .. | .advance _ => isTrue trivial

instance Event.decInTime (s : State) (ev : Event cfg) : Decidable (ev.InTime s) :=
  inferInstanceAs (Decidable (ev.Timely s ∧ ev.Started s))

/-- The run of a list of events, as long as every one is allowed and no assert fails. -/
def State.run (cfg : Config) (allowed : State → Event cfg → Prop) [∀ s ev, Decidable (allowed s ev)]
    (s : State) : List (Event cfg) → Option State
  | [] => some s
  | ev :: evs =>
      if allowed s ev then (s.step cfg ev).toOption.bind fun t => run cfg allowed t evs else none

theorem reachable_run {allowed : State → Event cfg → Prop} [∀ s ev, Decidable (allowed s ev)]
    {evs : List (Event cfg)}
    (start : s.Reachable cfg allowed) (ends : s.run cfg allowed evs = some t) :
    t.Reachable cfg allowed := by
  induction evs generalizing s with
  | nil =>
    obtain rfl := Option.some.inj ends
    exact start
  | cons ev evs ih =>
    unfold State.run at ends
    split at ends
    · rename_i ok
      obtain ⟨u, call, later⟩ := Option.bind_eq_some_iff.mp ends
      exact ih (.step start ok (toOption_eq_some.mp call)) later
    · cases ends

theorem exists_run {allowed : State → Event cfg → Prop} [∀ s ev, Decidable (allowed s ev)]
    (evs : List (Event cfg)) {test : State → Prop} [∀ s, Decidable (test s)]
    (ends : ((State.run cfg allowed {} evs).any fun s => decide (test s)) = true) :
    ∃ s, State.Reachable cfg allowed s ∧ test s := by
  obtain ⟨s, ended, passes⟩ := Option.any_eq_true _ _ |>.mp ends
  exact ⟨s, reachable_run .initial ended, of_decide_eq_true passes⟩

/-- A switch of one device in the DST mode with absolute PSNs, which returns 5000 bytes at once. -/
def creditConfig (interval : ℚ) : Config where
  toConfig := smallConfig .switchDstCredit true (dstCredit_psn true) 5000
  isToR := false
  useSwitchwin := true
  deviceNum := 1
  deviceNum_pos := Nat.one_pos
  torNum := 1
  torNum_pos := Nat.one_pos
  hostNum_pos := Nat.two_pos
  byteCounter := 5000
  ackThM := 0
  thAck := 0
  interval := interval

def creditPacket (interval : ℚ) : Dequeued (creditConfig interval) where
  udp := true
  sip := ⟨0, Nat.two_pos⟩
  dip := ⟨1, Nat.one_lt_two⟩
  size := 1000
  inDev := 0
  ingressPsn := some 1000

/-- A packet is dequeued at 1, and its bytes go back after 10 microseconds. -/
theorem creditTimer_right_ten : ∃ s : State, s.ingressLastTime 0 1 = 10001 ∧
    s.creditTimer = some ⟨20001, 0, 1⟩ ∧
    s.TimerRight (creditConfig 10) (fun s ev => ev.InTime s) := by
  obtain ⟨s, reach, last, timer⟩ :
    ∃ s, State.Reachable (creditConfig 10) (fun s ev => ev.InTime s) s ∧
      s.ingressLastTime 0 1 = 10001 ∧ s.creditTimer = some ⟨20001, 0, 1⟩ :=
    exists_run [.advance 1, .switchNotifyDequeue (creditPacket 10), .advance 10001, .creditTimeout]
      (by decide +kernel)
  exact ⟨s, last, timer, (creditTimer_right_iff (by decide +kernel) (by decide) reach).mpr
    (.inl ⟨10, rfl⟩)⟩

/-- With an interval of half a microsecond the timer runs out at the time it was started, moves
nothing, and is pending for the same time again. With 10 microseconds, a packet dequeued at time 0
gets no timer. -/
theorem creditTimer_stands :
    (∃ s t, State.Reachable (creditConfig (1 / 2)) (fun s ev => ev.Timely s) s ∧
      s.creditTimer = some ⟨s.now, 0, 1⟩ ∧ s.step (creditConfig (1 / 2)) .creditTimeout = .ok t ∧
      t.ingressLastTime 0 1 = s.ingressLastTime 0 1 ∧ t.creditTimer = s.creditTimer ∧
      ¬s.TimerRight (creditConfig (1 / 2)) (fun s ev => ev.Timely s)) ∧
    ∃ s, State.Reachable (creditConfig 10) (fun s ev => ev.Timely s) s ∧
    s.Uncredited (creditConfig 10) 0 1 ∧
      s.creditTimer = none ∧ ¬s.TimerRight (creditConfig 10) (fun s ev => ev.Timely s) := by
  constructor
  · obtain ⟨s, reach, pending, last, moves⟩ :
        ∃ s, State.Reachable (creditConfig (1 / 2)) (fun s ev => ev.Timely s) s ∧
          s.creditTimer = some ⟨s.now, 0, 1⟩ ∧ s.ingressLastTime 0 1 = 1 ∧
          ((s.step (creditConfig (1 / 2)) .creditTimeout).toOption.any fun t =>
            decide (t.ingressLastTime 0 1 = 1 ∧ t.creditTimer = some ⟨s.now, 0, 1⟩)) = true :=
      exists_run [.advance 1, .switchNotifyDequeue (creditPacket (1 / 2))] (by decide +kernel)
    obtain ⟨t, call, same⟩ := Option.any_eq_true _ _ |>.mp moves
    obtain ⟨last', again⟩ := of_decide_eq_true same
    have call := toOption_eq_some.mp call
    refine ⟨s, t, reach, pending, call, last'.trans last.symm, again.trans pending.symm,
      fun right => ?_⟩
    have less := right.fires _ t pending rfl call
    dsimp only at less
    rw [last, last'] at less
    exact absurd less (Nat.lt_irrefl 1)
  · obtain ⟨s, reach, lst, idle, unset⟩ :
      ∃ s, State.Reachable (creditConfig 10) (fun s ev => ev.Timely s) s ∧
        s.lstAckPsn 0 1 < s.nxtAckPsn 0 1 ∧ s.creditTimer = none ∧ s.ingressLastTime 0 1 = 0 :=
      exists_run [.switchNotifyDequeue (creditPacket 10)] (by decide +kernel)
    exact ⟨s, reach, lst, idle, fun right => right.covered 0 1 lst unset⟩

end Credit

end Floodgate

end Pyrrha

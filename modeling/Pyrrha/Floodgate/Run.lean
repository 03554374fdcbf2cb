import Pyrrha.Floodgate.Node
import Pyrrha.Lib.Checked

/-! The runs of one switch of Floodgate: any order of admitted data packets, `SwitchACK`s and
timeouts. -/

namespace Pyrrha
open Lib

namespace Floodgate

/-- What can happen to a switch as upstream. Routing and queue are choices of the packet. -/
inductive Event where
  | data (packet : PacketUnit)
  | switchAck (acktag : ℕ → ℕ) (dst inDev : ℕ)
  | advance (t : ℕ)
  | synTimeout (dev : ℕ)

namespace State

def step (cfg : Config) (s : State) : Event → Checked State
  | .data packet => s.sendToDev cfg packet
  | .switchAck acktag dst inDev => (s.resumeVOQWin cfg acktag dst inDev).map Prod.fst
  | .advance t => .ok { s with now := t }
  | .synTimeout dev => .ok (s.synTimeout cfg dev)

theorem step_switchAck {cfg : Config} {s t : State} {acktag : ℕ → ℕ} {dst inDev : ℕ}
    (call : s.step cfg (.switchAck acktag dst inDev) = .ok t) :
    ∃ keep, s.resumeVOQWin cfg acktag dst inDev = .ok (t, keep) := by
  change (s.resumeVOQWin cfg acktag dst inDev).map Prod.fst = .ok t at call
  cases ended : s.resumeVOQWin cfg acktag dst inDev with
  | error e =>
    rw [ended] at call
    cases call
  | ok r =>
    rw [ended] at call
    obtain rfl := Except.ok.inj call
    exact ⟨r.2, rfl⟩

/-- The states of the runs all of whose steps satisfy `allowed`. -/
inductive Reachable (cfg : Config) (allowed : State → Event → Prop) : State → Prop where
  | initial : Reachable cfg allowed (State.initial cfg)
  | step {s t : State} {ev : Event} : Reachable cfg allowed s → allowed s ev →
      s.step cfg ev = .ok t → Reachable cfg allowed t

/-- The run of a list of events, as long as every one is allowed and no assert fails. -/
def run (cfg : Config) (allowed : State → Event → Prop) [∀ s ev, Decidable (allowed s ev)]
    (s : State) : List Event → Option State
  | [] => some s
  | ev :: evs =>
    if allowed s ev then
      match s.step cfg ev with
      | .ok t => run cfg allowed t evs
      | .error _ => none
    else none

theorem reachable_run {cfg : Config} {allowed : State → Event → Prop}
    [∀ s ev, Decidable (allowed s ev)] {s t : State}
    {evs : List Event} (start : Reachable cfg allowed s) (ends : run cfg allowed s evs = some t) :
    Reachable cfg allowed t := by
  induction evs generalizing s with
  | nil =>
    obtain rfl := Option.some.inj ends
    exact start
  | cons ev evs ih =>
    unfold run at ends
    split at ends
    · rename_i ok
      split at ends
      · rename_i u call
        exact ih (.step start ok call) ends
      · cases ends
    · cases ends

theorem exists_ok {α : Type} {x : Checked α} {test : α → Prop} [∀ a, Decidable (test a)]
    (ends : (x.toOption.any fun a => decide (test a)) = true) : ∃ a, x = .ok a ∧ test a := by
  cases x with
  | error e => cases ends
  | ok a => exact ⟨a, rfl, of_decide_eq_true ends⟩

def stopsAt {α : Type} (e : Assert) : Checked α → Bool
  | .ok _ => false
  | .error e' => decide (e' = e)

theorem stopsAt_error {α : Type} {x : Checked α} {e : Assert} (h : stopsAt e x = true) :
    x = .error e := by
  cases x with
  | ok a => cases h
  | error e' => exact congrArg _ (of_decide_eq_true h)

theorem exists_run {cfg : Config} {allowed : State → Event → Prop}
    [∀ s ev, Decidable (allowed s ev)]
    (evs : List Event) {test : State → Prop} [∀ s, Decidable (test s)]
    (ends : ((run cfg allowed (State.initial cfg) evs).any fun s => decide (test s)) = true) :
    ∃ s, Reachable cfg allowed s ∧ test s := by
  obtain ⟨s, ended, passes⟩ := Option.any_eq_true _ _ |>.mp ends
  exact ⟨s, reachable_run .initial ended, of_decide_eq_true passes⟩

end State

theorem dstCredit_psn (psn : Bool) : psn = true → AckMode.switchDstCredit ≠ .hostPerPacketAck :=
  fun _ => nofun

theorem ingressCredit_psn (psn : Bool) : psn = true → AckMode.switchIngressCredit ≠
    .hostPerPacketAck := fun _ => nofun

/-- Two hosts, of which the second has its own window `win` and the first is ignored. -/
def smallConfig (mode : AckMode) (psn : Bool) (valid : psn = true → mode ≠ .hostPerPacketAck)
    (win : Fin (2 ^ 32)) : Config where
  ackMode := mode
  absolutePsn := psn
  usePortWin := false
  resetOnlyToR := false
  hostNum := 2
  hostPerRack := 1
  bdpMap := fun d => if d < 4 then some win else none
  bdpMap_lt := by
    intro d w h
    split at h <;> simp only [Option.some.injEq, reduceCtorEq] at h
    exact h ▸ win.isLt
  portWin := fun _ => 0
  portWin_lt := fun _ => by decide
  groupNum := 1
  group := fun _ => ⟨0, false, nofun⟩
  dst2group := fun d => if d = 0 then some .ignore else if d = 1 then some (.group 0) else none
  hosts := by
    intro d
    rcases d with _ | _ | d <;> simp
  grouped := by
    intro d g h
    rcases d with _ | _ | d <;> simp_all
  portWin_mode := nofun
  psn_mode := valid
  synTimeout := 0
  syn_mode := nofun

instance neZero_sizes : NeZero (2 ^ 31 - 1) := ⟨by decide⟩

instance neZero_windows : NeZero (2 ^ 32) := ⟨by decide⟩

/-- A packet of `size + 1` bytes for host 1, through queue 1 of device 1. -/
def smallPacket (uid : ℕ) (size : Fin (2 ^ 31 - 1)) : PacketUnit where
  uid := uid
  src := 0
  dst := 1
  qpId := 0
  size := size + 1
  size_pos := by omega
  size_lt := by omega
  outDev := 1
  qIndex := 1
  psn := none

end Floodgate

end Pyrrha

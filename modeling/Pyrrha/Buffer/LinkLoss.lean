import Pyrrha.Buffer.PauseRelease
import Pyrrha.Buffer.Statistics

/-!
The loss of a link. `TakeDown` empties queues below `SwitchNode`, so every counter the switch keeps
of its packets goes on counting what was drained.
-/

namespace Pyrrha
open Lib

namespace Buffer

variable {n : ℕ} {cfg : Config n} {s t u : State n}

/-- The packets of BFC that have gone through a flow entry. -/
def Item.flowed (dev : Fin n) (fid : ℕ) (it : Item n) : Bool :=
  it.arrived && decide (it.q ≠ 0) && decide (it.dev = dev) && decide (it.packet.fid = fid)

/-- The packets of BFC that hold a pause of an upstream queue. -/
def Item.pausing (inDev : Fin n) (up : ℕ) (it : Item n) : Bool :=
  it.packet.counterIncr && decide (it.q ≠ 0) && decide (it.packet.inDev = some inDev) &&
    decide (it.packet.upstreamQ = up)

/-- The counters of the switch account for the packets it buffers. -/
structure Consistent (cfg : Config n) (s : State n) : Prop where
  egress : ∀ dev q, s.egressBytes dev q = tally Item.size (Item.destined dev q) s.held
  ingress : IngressBooks cfg s s.held
  bytes : ∀ inDev dev q, s.bytes inDev dev q = tally Item.size (Item.entered inDev dev q) s.held
  pauses : cfg.fcMode = .bfc → ∀ inDev up, s.pauseCounter inDev up =
    tally (fun _ => 1) (Item.pausing inDev up) s.held
  flows : cfg.fcMode = .bfc → ∀ dev fid, (s.flowTb dev fid).getD 0 =
    tally (fun _ => 1) (Item.flowed dev fid) s.held

/-- What the law needs of an event: no own SYN is transmitted, no packet that was held back, no
packet that came in through a port is drained, the ingress counters are not upset, and an arrival
finds room. -/
structure Event.Intact (cfg : Config n) (s : State n) (ev : Event n) : Prop where
  noSyn : ev.NoSyn s
  noLoss : ev.NoLoss cfg s
  safe : ev.IngressSafe cfg s
  counted : ev.Counted s
  roomy : ev.Roomy cfg s

/-! ### Counters that are right -/

/-- Every account but those of queues that only `m_buffering_bytes` knows. -/
def Account.Sure : Account n → Prop
  | .dst _ | .egressDst _ _ => False
  | _ => True

theorem intact_settles {a : Account n} (sure : a.Sure) {ev : Event n} (h : ev.Intact cfg s) :
    ev.Settles cfg s a := by
  cases ev with
  | transmit k it flowId =>
    intro front arrived
    cases a <;> first | exact trivial | exact sure.elim | exact h.counted front arrived
  | _ => trivial

theorem intact_kept {a : Account n} (sure : a.Sure)
    (reach : State.Reachable cfg (fun s ev => ev.Intact cfg s) s)
    (room : s.refused = false) : a.Kept cfg s :=
  (kept_reachable (fun _ _ _ intact => ⟨intact.noSyn, intact.noLoss, intact_settles sure intact⟩)
    reach).2 room

theorem count_arrived {p : Item n → Bool} (arrived : ∀ it, p it = true → it.arrived = true) :
    tally (fun _ => 1) p s.held ≤ s.arrivedBytes :=
  tally_le_tally fun it _ passes => ⟨arrived it passes, size_pos it⟩

theorem pausing_eq (mode : cfg.fcMode = .bfc) (inDev : Fin n) (up : ℕ) :
    (Account.pauses inDev up).test cfg = Item.pausing inDev up := by
  funext it
  simp only [Account.test, Item.pausing, mode]
  cases known : it.packet.inDev <;> grind

theorem flowed_eq (mode : cfg.fcMode = .bfc) (dev : Fin n) (fid : ℕ) :
    (Account.flow dev fid).test cfg = Item.flowed dev fid := by
  funext it
  simp only [Account.test, Item.flowed, Item.arrived, mode]
  grind

theorem intact_consistent (reach : State.Reachable cfg (fun s ev => ev.Intact cfg s) s)
    (room : s.refused = false) : Consistent cfg s := by
  have right := (right_safe (fun _ _ intact => intact.safe) reach).2 room
  refine ⟨fun dev q => egress_destined (intact_kept trivial reach room) right.fits, right.books,
    fun inDev dev q => bytes_entered (intact_kept trivial reach room) right.fits,
      fun mode inDev up => ?_, fun mode dev fid => ?_⟩
  · have kept : (Account.pauses inDev up).Kept cfg s := intact_kept trivial reach room
    have exact_ := keeps_exact kept
    rw [pausing_eq mode] at exact_
    refine exact_ ((count_arrived fun it passes => ?_).trans_lt right.fits)
    simp only [Item.pausing, Bool.and_eq_true, decide_eq_true_eq] at passes
    rw [Item.arrived, passes.1.2]
    rfl
  · have kept : (Account.flow dev fid).Kept cfg s := intact_kept trivial reach room
    have exact_ := keeps_exact kept
    rw [flowed_eq mode] at exact_
    refine exact_ ((count_arrived fun it passes => ?_).trans_lt right.fits)
    simp only [Item.flowed, Bool.and_eq_true] at passes
    exact passes.1.1.1

/-! ### The asserts -/

theorem intact_asserts (reach : State.Reachable cfg (fun s ev => ev.Intact cfg s) s)
    (room : s.refused = false)
    {ev : Event n} (intact : ev.Intact cfg s) {e : Assert} (call : s.step cfg ev = .error e) :
    e ≠ .doStatistics ∧ e ≠ .removeFromEgressAdmission := by
  have sound := sound_reachable reach
  have buffers : BuffersKept cfg s := fun a read => intact_kept (by cases a <;> first | exact trivial | exact read.elim) reach room
  refine ⟨statistics_hold sound buffers intact.roomy call, ?_⟩
  cases ev with
  | arrive p inDev dev q ch =>
    rcases sendToDev_error call with ⟨rfl, -⟩ | ⟨-, failed⟩ | ⟨_, _, _, _, _, _, failed⟩
    · decide
    · rw [(doStatistics_error failed).1]
      decide
    · rw [(doStatistics_error failed).1]
      decide
  | transmit k it flowId =>
    rw [transmit_covered sound (intact_consistent reach room).egress intact.noSyn call]
    decide
  | hierRR moves =>
    rw [State.step, State.doHierQRR] at call
    split at call
    · rename_i mode
      -- every move is a round of its own
      have move : ∀ m ∈ moves, ∀ u v : State n,
          State.Reachable cfg (fun s ev => ev.Intact cfg s) u ∧ u.refused = false →
            u.hierMove cfg m.1 m.2.1 m.2.2 = .ok v →
            State.Reachable cfg (fun s ev => ev.Intact cfg s) v ∧ v.refused = false := by
        intro m member u v before moved
        have round : u.step cfg (.hierRR [m]) = .ok v := by
          rw [State.step, State.doHierQRR, if_pos mode, List.foldlM_cons, moved]
          rfl
        have alone : (Event.hierRR [m]).Intact cfg u := by
          refine ⟨trivial, trivial, fun _ m' one => ?_, trivial, trivial⟩
          rw [List.mem_singleton.mp one]
          exact intact.safe mode m member
        exact ⟨.step before.1 alone round, (hierMove_refused moved).trans before.2⟩
      obtain ⟨m, -, u, ⟨reach', room'⟩, failed⟩ := foldlM_error move ⟨reach, room⟩ call
      obtain ⟨inDev, front, known, ⟨rfl, fails⟩ | ⟨rfl, -⟩⟩ := hierMove_error failed
      · have stored := front_stored (sound_reachable reach') front (by rw [known]; rfl)
        refine absurd ⟨stored.queue, ?_⟩ fails
        rw [(intact_consistent reach' room').egress]
        exact le_tally (List.mem_of_getElem? front.found)
          (by simp [Item.destined, Item.arrived, stored.inDev])
      · decide
    · cases call
  | _ => cases call

/-! ### `TakeDown` -/

/-- The upstreams whose last packets were drained are no longer paused. -/
def Resumes (cfg : Config n) (s : State n) (dev : Fin n) (limited : Item n → Bool) : Prop :=
  ∀ port idx, (∃ it ∈ s.held, State.drains cfg dev limited it = true ∧
    it.packet.inDev = some port) →
    (∀ it ∈ (s.takeDown cfg dev limited).held, it.packet.inDev ≠ some port) →
      (s.takeDown cfg dev limited).paused port idx = false ∧
        (s.takeDown cfg dev limited).pauseCounter port idx = 0

/-- A packet that has come in and is drained stays in `egress_bytes`. -/
theorem drained_counted {dev : Fin n} {limited : Item n → Bool} (before : Consistent cfg s)
    (after : Consistent cfg (s.takeDown cfg dev limited)) :
    (Event.takeDown dev limited).NoLoss cfg s := by
  intro it member drained
  by_contra arrived
  have destined : it.destined it.dev it.q = true := by
    simp [Item.destined, Item.arrived, Option.isSome_iff_ne_none.mpr arrived]
  have split := tally_filter_not (w := Item.size) (p := Item.destined it.dev it.q)
    (q := State.drains cfg dev limited) (l := s.held)
  have lost : it.size ≤ tally Item.size (fun x => x.destined it.dev it.q &&
      State.drains cfg dev limited x) s.held :=
    le_tally member (by simp [destined, drained])
  have same : s.egressBytes it.dev it.q = tally Item.size (Item.destined it.dev it.q)
      (s.held.filter fun x => !State.drains cfg dev limited x) := after.egress it.dev it.q
  rw [before.egress] at same
  have pos := size_pos it
  omega

theorem takeDown_ciqs (mode : cfg.fcMode = .congestionIsolation) (dev : Fin n)
    (limited : Item n → Bool) :
    (s.takeDown cfg dev limited).held.filter (fun it => decide (queueNum ≤ it.q)) =
      s.held.filter fun it => decide (queueNum ≤ it.q) := by
  simp only [State.takeDown, List.filter_filter]
  refine List.filter_congr fun it _ => ?_
  simp only [State.drains, mode]
  grind

/-- In the runs in which no packet that came in through a port is drained, and the counters are not
upset in another way, the counters account for what is buffered and the asserts hold. For any link
it is just the drained packets that decide whether they still do after `TakeDown`. -/
theorem link_loss_iff (reach : State.Reachable cfg (fun s ev => ev.Intact cfg s) s)
    (room : s.refused = false) : Consistent cfg s ∧
    (∀ (ev : Event n) (e : Assert), ev.Intact cfg s → s.step cfg ev = .error e →
      e ≠ .doStatistics ∧ e ≠ .removeFromEgressAdmission) ∧
    ∀ (dev : Fin n) (limited : Item n → Bool),
      (Consistent cfg (s.takeDown cfg dev limited) ∧ Resumes cfg s dev limited ↔
        ∀ it ∈ s.held, State.drains cfg dev limited it = true → it.packet.inDev = none) ∧
      (cfg.fcMode = .congestionIsolation →
        (s.takeDown cfg dev limited).held.filter (fun it => decide (queueNum ≤ it.q)) =
        s.held.filter fun it => decide (queueNum ≤ it.q)) := by
  refine ⟨intact_consistent reach room, fun ev e intact => intact_asserts reach room intact,
    fun dev limited =>
    ⟨⟨fun after => drained_counted (intact_consistent reach room) after.1, fun noLoss => ⟨?_, ?_⟩⟩,
      fun mode => takeDown_ciqs mode dev limited⟩⟩
  · have intact : (Event.takeDown dev limited).Intact cfg s :=
      ⟨trivial, noLoss, noLoss, trivial, trivial⟩
    exact intact_consistent (.step reach intact rfl) room
  · intro port idx drained
    obtain ⟨it, member, gone, known⟩ := drained
    rw [noLoss it member gone] at known
    cases known

/-- A packet in its queue, with the link of another port taken down, and with its own one. -/
theorem link_loss_other : ∃ s : State 3, s.egressBytes 2 1 = 1000 ∧
    Consistent (smallConfig .pfc) s ∧
    Consistent (smallConfig .pfc) (s.takeDown (smallConfig .pfc) 1 fun _ => false) ∧
    (∃ it ∈ s.held, State.drains (smallConfig .pfc) 2 (fun _ => false) it = true) ∧
    ¬(Consistent (smallConfig .pfc) (s.takeDown (smallConfig .pfc) 2 fun _ => false) ∧
      Resumes (smallConfig .pfc) s 2 fun _ => false) := by
  let arrival : Event 3 := .arrive (smallPacket .udp 999) 1 2 1 ⟨.pass, false⟩
  have ends : ((State.step (smallConfig .pfc) {} arrival).toOption.any fun t =>
      decide (t.egressBytes 2 1 = 1000 ∧ t.refused = false ∧
        (∀ it ∈ t.held, State.drains (smallConfig .pfc) 1 (fun _ => false) it = true →
          it.packet.inDev = none) ∧
        ∃ it ∈ t.held, State.drains (smallConfig .pfc) 2 (fun _ => false) it = true ∧
          it.packet.inDev ≠ none)) =
      true := by decide +kernel
  obtain ⟨s, call, facts⟩ := State.any_ok ends
  obtain ⟨bytes, room, own, it, held, drained, known⟩ := of_decide_eq_true facts
  have frames : (smallConfig .pfc).frameBytes = 64 := by decide
  have intact : arrival.Intact (smallConfig .pfc) {} := by
    refine ⟨trivial, trivial, ⟨fun off => absurd off (by decide), ?_⟩, trivial, ?_, fun _ => ?_⟩
    · show 0 + 1000 < 2 ^ 32
      omega
    · rw [frames]
      decide
    · decide
  obtain ⟨consistent, -, lost⟩ := link_loss_iff (.step .initial intact call) room
  exact ⟨s, bytes, consistent, ((lost 1 fun _ => false).1.mpr own).1, ⟨it, held, drained⟩,
    fun after => known ((lost 2 fun _ => false).1.mp after it held drained)⟩

/-- A packet that is drained stays in `egress_bytes`, `ingress_bytes` and `m_bytes`, and its port
stays paused. -/
theorem drained_paused : ∃ s : State 3,
    State.Reachable (pressedConfig .pfc 100000)
      (fun s ev => ev.Intact (pressedConfig .pfc 100000) s) s ∧
    s.refused = false ∧ s.held.map (fun it => it.packet.inDev) = [none, some 1] ∧
    (s.takeDown (pressedConfig .pfc 100000) 2 fun _ => false).held.map (fun it => it.packet.inDev) =
    [none] ∧
    (s.takeDown (pressedConfig .pfc 100000) 2 fun _ => false).egressBytes 2 1 = 1000 ∧
    (s.takeDown (pressedConfig .pfc 100000) 2 fun _ => false).paused 1 1 = true ∧
    ¬Consistent (pressedConfig .pfc 100000) (s.takeDown (pressedConfig .pfc 100000) 2 fun _ =>
      false) := by
  let arrival : Event 3 := .arrive (smallPacket .udp 999) 1 2 1 ⟨.pass, false⟩
  have ends : ((State.step (pressedConfig .pfc 100000) {} arrival).toOption.any fun s =>
      decide (s.refused = false ∧ s.held.map (fun it => it.packet.inDev) = [none, some 1] ∧
        (s.takeDown (pressedConfig .pfc 100000) 2 fun _ => false).held.map
          (fun it => it.packet.inDev) = [none] ∧
        (s.takeDown (pressedConfig .pfc 100000) 2 fun _ => false).egressBytes 2 1 = 1000 ∧
        (s.takeDown (pressedConfig .pfc 100000) 2 fun _ => false).paused 1 1 = true ∧
        tally Item.size (Item.destined 2 1) (s.takeDown (pressedConfig .pfc 100000) 2 fun _ =>
          false).held = 0)) =
      true := by decide +kernel
  obtain ⟨s, call, facts⟩ := State.any_ok ends
  obtain ⟨room, before, after, bytes, flag, none⟩ := of_decide_eq_true facts
  have frames : (pressedConfig .pfc 100000).frameBytes = 64 := by decide
  have intact : arrival.Intact (pressedConfig .pfc 100000) {} := by
    refine ⟨trivial, trivial, ⟨fun off => absurd off (by decide), ?_⟩, trivial, ?_, fun _ => ?_⟩
    · show 0 + 1000 < 2 ^ 32
      omega
    · rw [frames]
      decide
    · decide
  refine ⟨s, .step .initial intact call, room, before, after, bytes, flag, fun consistent => ?_⟩
  have counted := consistent.egress 2 1
  rw [bytes, none] at counted
  cases counted

end Buffer

end Pyrrha

import Pyrrha.Floodgate.Answers
import Pyrrha.Floodgate.Passage

/-!
A switch and the switches its devices lead to, with the packets and the `SwitchACK`s on the way
between them, in any interleaving. In the relative mode a window and all that has been taken from it
add up to the entry of `BDPMAP`: no byte of a window is lost, none is returned twice.
-/

namespace Pyrrha
open Lib Finset

namespace Floodgate

/-- A switch `up` and the switch that each of its `ports` devices leads to, whose own device towards
it is `inDev`. What they have in common are static members of `Settings`; `third.cc` gives every
host an entry of `BDPMAP`, and `switch_byte_counter` at least 1. -/
structure Network where
  up : Config
  ports : ℕ
  down : ℕ → Credit.Config
  inDev : ℕ → ℕ
  ackMode : ∀ p, (down p).ackMode = up.ackMode
  hostNum : ∀ p, (down p).hostNum = up.hostNum
  absolutePsn : ∀ p, (down p).absolutePsn = up.absolutePsn
  resetOnlyToR : ∀ p, (down p).resetOnlyToR = up.resetOnlyToR
  useSwitchwin : ∀ p, (down p).useSwitchwin = true
  byteCounter : ∀ p, 0 < (down p).byteCounter
  windows : ∀ d < up.hostNum, ∃ w, up.bdpMap d = some w

namespace Network

/-- `onWay` are the packets handed to the queues of the switch that have not left the next node. -/
structure State where
  up : Floodgate.State
  onWay : List PacketUnit := []
  down : ℕ → Credit.Downstream := fun _ => {}

variable (net : Network)

/-- What can happen in a network: to the switch by itself, to a packet on its way, to a neighbour by
itself, and the arrival of a `SwitchACK`. -/
inductive Event where
  | up (ev : Floodgate.Event)
  | dequeue (k : ℕ)
  | deliver (k : ℕ)
  | down (p : ℕ) (ev : Credit.Event (net.down p))
  | switchAck (p k : ℕ)

/-- A packet of a window goes to a switch that counts it: not back to the ToR of its source. -/
def Routed (q : PacketUnit) : Prop :=
  net.up.dst2group q.dst ≠ some .ignore →
    (net.down q.outDev).isToR = true → (net.down q.outDev).dst2group q.src ≠ some .ignore

instance (q : PacketUnit) : Decidable (net.Routed q) :=
  inferInstanceAs (Decidable (net.up.dst2group q.dst ≠ some .ignore →
    (net.down q.outDev).isToR = true → (net.down q.outDev).dst2group q.src ≠ some .ignore))

/-- The packet at `SwitchNotifyDequeue` of the next switch. -/
def arrival (q : PacketUnit) (src : q.src < (net.down q.outDev).hostNum)
    (dst : q.dst < (net.down q.outDev).hostNum) : Credit.Dequeued (net.down q.outDev) where
  udp := true
  sip := ⟨q.src, src⟩
  dip := ⟨q.dst, dst⟩
  size := q.size
  inDev := net.inDev q.outDev
  ingressPsn := q.psn

/-- A step of the switch; what it hands to its queues is on the way then. -/
def moveUp (s : State) (ev : Floodgate.Event) (down : ℕ → Credit.Downstream) : Option State :=
  (s.up.step net.up ev).toOption.map fun t => ⟨t, s.onWay ++ t.sent.drop s.up.sent.length, down⟩

def moveDown (s : State) (p : ℕ) (call : Credit.Checked Credit.Downstream)
    (onWay : List PacketUnit) : Option State :=
  call.toOption.map fun x => ⟨s.up, onWay, Function.update s.down p x⟩

def step (s : State) : net.Event → Option State
  | .up ev => net.moveUp s ev s.down
  | .dequeue k =>
    match s.onWay[k]? with
    | some q =>
      if h : q.src < (net.down q.outDev).hostNum ∧ q.dst < (net.down q.outDev).hostNum then
        moveDown s q.outDev ((s.down q.outDev).switchNotifyDequeue _ (net.arrival q h.1 h.2))
          (s.onWay.eraseIdx k)
      else none
    | none => none
  | .deliver k =>
    match s.onWay[k]? with
    | some q => if net.up.dst2group q.dst = some .ignore then some { s with onWay := s.onWay.eraseIdx k } else none
    | none => none
  | .down p ev => moveDown s p ((s.down p).step (net.down p) ev) s.onWay
  | .switchAck p k =>
    match (s.down p).acks[k]? with
    | some a =>
      if a.dev = net.inDev p then
        net.moveUp s (.switchAck a.acktag a.dst p)
          (Function.update s.down p ⟨(s.down p).state, (s.down p).acks.eraseIdx k⟩)
      else none
    | none => none

/-- A `SwitchACK` comes from a neighbour, which sends it by itself and counts what others send
through it by itself. -/
def Allowed (s : State) : net.Event → Prop
  | .up (.data p) => (p.outDev < net.ports ∧ net.Routed p) ∧ Event.Fits net.up s.up (.data p)
  | .up (.switchAck ..) => False
  | .up _ | .dequeue _ | .deliver _ => True
  | .down p (.switchNotifyDequeue x) => p < net.ports ∧ x.inDev ≠ net.inDev p
  | .down _ (.sendAccSwitchACK ..) | .down _ (.sendSwitchACK ..) => False
  | .down p _ => p < net.ports
  | .switchAck p _ => p < net.ports

instance (s : State) (ev : net.Event) : Decidable (net.Allowed s ev) :=
  match ev with
  | .up (.data p) => inferInstanceAs (Decidable ((p.outDev < net.ports ∧ net.Routed p) ∧
      Event.Fits net.up s.up (.data p)))
  | .up (.switchAck ..) | .down _ (.sendAccSwitchACK ..) | .down _ (.sendSwitchACK ..) => isFalse id
  | .up (.advance _) | .up (.synTimeout _) | .dequeue _ | .deliver _ => isTrue trivial
  | .down p (.switchNotifyDequeue x) =>
      inferInstanceAs (Decidable (p < net.ports ∧ x.inDev ≠ net.inDev p))
  | .down p .creditTimeout | .down p (.updateBufferingCount ..) | .down p
      (.advance _) | .switchAck p _ =>
    inferInstanceAs (Decidable (p < net.ports))

def initial : State := { up := Floodgate.State.initial net.up }

inductive Reachable : State → Prop where
  | initial : Reachable net.initial
  | step {s t : State} {ev : net.Event} : Reachable s → net.Allowed s ev →
      net.step s ev = some t → Reachable t

/-! ### What is outstanding -/

def onWayBytes (s : State) (d : ℕ) : ℕ :=
  tally PacketUnit.size (fun q => decide (q.dst = d)) s.onWay

/-- The bytes of `d` that the neighbours have to return: in their counters or in a `SwitchACK`. -/
def owedBytes (s : State) (d : ℕ) : ℕ :=
  ∑ p ∈ range net.ports, (s.down p).owed (net.down p) (net.inDev p) d

/-- The counters of a neighbour that are for a window. -/
def Watched (p dev d : ℕ) : Prop :=
  dev = net.inDev p ∧ ∃ g, net.up.dst2group d = some (.group g)

/-- Every byte sent is on the way, is owed by a neighbour, or has been credited. -/
structure Balanced (credited : ℕ → ℕ) (s : State) : Prop where
  ledger : s.up.DstLedger net.up credited
  passage : s.up.Passage net.up net.ports net.Routed s.up.sent
  way : ∀ q ∈ s.onWay, q ∈ s.up.sent
  small : ∀ p dev d, ((s.down p).state.credits dev d).getD 0 < 2 ^ 32
  balance : ∀ d g, net.up.dst2group d = some (.group g) →
    onWayBytes s d + net.owedBytes s d + credited d = s.up.sentBytes d

variable {net} {s t : State} {credited : ℕ → ℕ} {d g p : ℕ} {q : PacketUnit}

theorem balanced_initial (net : Network) : net.Balanced (fun _ => 0) net.initial where
  ledger := State.dstLedger_initial net.up
  passage := State.passage_initial net.up net.ports net.Routed
  way _ member := (List.not_mem_nil member).elim
  small _ _ _ := Nat.two_pow_pos 32
  balance d _ _ := by
    have empty : net.owedBytes net.initial d = 0 := sum_eq_zero fun _ _ => rfl
    rw [empty]
    rfl

theorem toDst_down (net : Network) (p : ℕ) (acktag : ℕ → ℕ) (dst d : ℕ) :
    (net.down p).toDst acktag dst d = net.up.toDst acktag dst d := by
  unfold Config.toDst
  rw [net.ackMode, net.hostNum]

theorem owedBytes_update (inside : p < net.ports) (onWay : List PacketUnit) (up : Floodgate.State)
    (x : Credit.Downstream) (d : ℕ) :
    net.owedBytes ⟨up, onWay, Function.update s.down p x⟩ d +
      (s.down p).owed (net.down p) (net.inDev p) d =
      net.owedBytes s d + x.owed (net.down p) (net.inDev p) d := by
  have member : p ∈ range net.ports := mem_range.mpr inside
  unfold owedBytes
  dsimp only
  rw [← add_sum_erase _ _ member, ← add_sum_erase _ _ member, Function.update_self]
  have others : ∑ i ∈ (range net.ports).erase p,
    (Function.update s.down p x i).owed (net.down i) (net.inDev i) d =
      ∑ i ∈ (range net.ports).erase p, (s.down i).owed (net.down i) (net.inDev i) d := by
    apply sum_congr rfl
    intro i member
    rw [Function.update_of_ne (mem_erase.mp member).1]
  rw [others]
  omega

theorem rule_window (net : Network) (rule : net.up.dst2group d = some (.group g)) :
    ∃ w, net.up.bdpMap d = some w :=
  net.windows d ((net.up.hosts d).mp (by rw [rule]; rfl))

theorem outstanding (before : net.Balanced credited s)
    (rule : net.up.dst2group d = some (.group g)) :
    onWayBytes s d + net.owedBytes s d + credited d + s.up.waiting net.up d ≤ s.up.admittedBytes d ∧
      s.up.admittedBytes d < 2 ^ 32 + credited d + s.up.waiting net.up d := by
  obtain ⟨w₀, known⟩ := net.rule_window rule
  have balance := before.balance d g rule
  have bytes := before.passage.bytes d
  have small := net.up.bdpMap_lt d w₀ known
  obtain ⟨w, -, sum⟩ := before.ledger.wins d g w₀ rule known
  omega

theorem owed_le_owedBytes (inside : p < net.ports) (s : State) (d : ℕ) :
    (s.down p).owed (net.down p) (net.inDev p) d ≤ net.owedBytes s d :=
  single_le_sum (f := fun i => (s.down i).owed (net.down i) (net.inDev i) d)
    (fun _ _ => Nat.zero_le _) (mem_range.mpr inside)

/-! ### Steps of the switch -/

/-- A step of the switch that credits what the neighbours no longer owe. -/
theorem balanced_moveUp (linked : net.up.Linked) (relative : net.up.absolutePsn = false)
    {ev : Floodgate.Event}
    {down : ℕ → Credit.Downstream} (before : net.Balanced credited s) (fits : ev.Fits net.up s.up)
    (routed : ∀ q, ev = .data q → q.outDev < net.ports ∧ net.Routed q)
    (small : ∀ p dev d, ((down p).state.credits dev d).getD 0 < 2 ^ 32)
    (returns : ∀ d g, net.up.dst2group d = some (.group g) →
      net.owedBytes { s with down := down } d + ev.dstCredit net.up d = net.owedBytes s d)
    (call : net.moveUp s ev down = some t) :
      net.Balanced (fun d => credited d + ev.dstCredit net.up d) t := by
  unfold moveUp at call
  obtain ⟨u, ends, rfl⟩ := Option.map_eq_some_iff.mp call
  have ends := toOption_eq_some.mp ends
  have owes : OwesDst net.up credited s.up ev := by
    intro d host watched
    obtain ⟨rule, known⟩ := Option.isSome_iff_exists.mp ((net.up.hosts d).mpr host)
    cases rule with
    | ignore => exact absurd known watched
    | group g =>
      have within := (outstanding before known).1
      have back := returns d g known
      omega
  have passage := State.passage_step before.passage fits routed ends
  obtain ⟨new, joined⟩ := passage.grows
  have added : u.sent.drop s.up.sent.length = new := by rw [← joined, List.drop_left]
  refine ⟨State.dstLedger_step linked relative before.ledger fits owes ends,
    State.passage_again passage, fun q member => ?_, small, fun d g rule => ?_⟩
  · dsimp only at member
    rw [added] at member
    rw [← joined]
    exact (List.mem_append.mp member).elim
      (fun old => List.mem_append_left _ (before.way q old)) fun here =>
      List.mem_append_right _ here
  · have balance := before.balance d g rule
    have back := returns d g rule
    have same : net.owedBytes ⟨u, s.onWay ++ u.sent.drop s.up.sent.length, down⟩ d =
        net.owedBytes { s with down := down } d := rfl
    rw [same, onWayBytes, added, tally_append, Floodgate.State.sentBytes, ← joined, tally_append]
    unfold onWayBytes Floodgate.State.sentBytes at balance
    omega

/-! ### Steps of the neighbours -/

theorem settled_of_balanced (before : net.Balanced credited s) (p : ℕ) :
    (s.down p).Settled (net.down p) (net.Watched p) fun dev d =>
    (s.down p).owed (net.down p) dev d :=
  ⟨fun _ _ _ _ => rfl, before.small p⟩

theorem balanced_moveDown (before : net.Balanced credited s) (inside : p < net.ports)
    {x : Credit.Downstream} {due : ℕ → ℕ → ℕ} {onWay : List PacketUnit}
    (settled : x.Settled (net.down p) (net.Watched p) due)
    (left : onWay ⊆ s.onWay) (moved : ∀ d g, net.up.dst2group d = some (.group g) →
      tally PacketUnit.size (fun q => decide (q.dst = d)) onWay + due (net.inDev p) d =
        onWayBytes s d + (s.down p).owed (net.down p) (net.inDev p) d) :
    net.Balanced credited ⟨s.up, onWay, Function.update s.down p x⟩ where
  ledger := before.ledger
  passage := before.passage
  way q member := before.way q (left member)
  small p' dev d := by
    dsimp only
    rw [Function.update_apply]
    split
    · exact settled.small dev d
    · exact before.small p' dev d
  balance d g rule := by
    have host : d < (net.down p).hostNum := by
      rw [net.hostNum]
      exact (net.up.hosts d).mp (by rw [rule]; rfl)
    have owes := settled.owes (net.inDev p) d host ⟨rfl, g, rule⟩
    have sum := owedBytes_update (s := s) inside onWay s.up x d
    have here := moved d g rule
    have balance := before.balance d g rule
    unfold onWayBytes at *
    dsimp only
    omega

theorem routed_onWay (before : net.Balanced credited s) (member : q ∈ s.onWay) :
    q.outDev < net.ports ∧ net.Routed q := by
  obtain ⟨p, admitted, same⟩ :=
    State.admitted_of_sent before.passage.toOrdered (before.way q member)
  obtain ⟨inside, routed⟩ := before.passage.routed p admitted
  simp only [PacketUnit.bare, PacketUnit.mk.injEq] at same
  obtain ⟨-, src, dst, -, -, outDev, -⟩ := same
  unfold Routed at routed ⊢
  rw [outDev] at inside
  exact ⟨inside, by simpa only [src, dst, outDev] using routed⟩

theorem balanced_dequeue (linked : net.up.Linked) (relative : net.up.absolutePsn = false) {k : ℕ}
    (before : net.Balanced credited s) (known : s.onWay[k]? = some q)
    (src : q.src < (net.down q.outDev).hostNum) (dst : q.dst < (net.down q.outDev).hostNum) :
    Outcome (fun x => net.Balanced credited ⟨s.up, s.onWay.eraseIdx k,
      Function.update s.down q.outDev x⟩)
      Credit.Assert.NoClean ((s.down q.outDev).switchNotifyDequeue _ (net.arrival q src dst)) := by
  have relative' := (net.absolutePsn q.outDev).trans relative
  have row : (net.down q.outDev).creditId (net.arrival q src dst) = net.inDev q.outDev := by
    unfold Credit.Config.creditId
    rw [net.resetOnlyToR, linked]
    rfl
  have member : q ∈ s.onWay := List.mem_of_getElem? known
  obtain ⟨inside, routed⟩ := routed_onWay before member
  have settled := Credit.switchNotifyDequeue_settled relative' (settled_of_balanced before q.outDev)
    (net.arrival q src dst)
  rw [row] at settled
  have left : ∀ d, tally PacketUnit.size (fun q => decide (q.dst = d)) (s.onWay.eraseIdx k) +
      (if q.dst = d then q.size else 0) = onWayBytes s d := by
    intro d
    have erased := tally_eraseIdx (w := PacketUnit.size) (p := fun q => decide (q.dst = d)) known
    unfold onWayBytes
    simpa only [decide_eq_true_eq] using erased
  refine outcome_mono (settled fun watched => ?_) (fun x after => ?_) fun e stop =>
    stop (net.byteCounter _)
  · obtain ⟨-, g, rule⟩ := watched
    have rule : net.up.dst2group q.dst = some (.group g) := rule
    have bound := outstanding before rule
    have one := owed_le_owedBytes inside s q.dst
    have here := left q.dst
    rw [if_pos rfl] at here
    have part : ((s.down q.outDev).state.credits (net.inDev q.outDev) q.dst).getD 0 ≤
        (s.down q.outDev).owed (net.down q.outDev) (net.inDev q.outDev) q.dst :=
          Nat.le_add_right _ _
    show ((s.down q.outDev).state.credits (net.inDev q.outDev) q.dst).getD 0 + q.size < 2 ^ 32
    omega
  · refine balanced_moveDown before inside after (List.eraseIdx_subset) fun d g rule => ?_
    have here := left d
    split
    · show _ + ((s.down q.outDev).owed (net.down q.outDev) (net.inDev q.outDev) d +
        if net.inDev q.outDev = net.inDev q.outDev ∧ d = q.dst then q.size else 0) = _
      by_cases hit : q.dst = d
      · rw [if_pos ⟨rfl, hit.symm⟩]
        rw [if_pos hit] at here
        omega
      · rw [if_neg fun both => hit both.2.symm]
        rw [if_neg hit] at here
        omega
    · rename_i uncounted
      have other : q.dst ≠ d := by
        rintro rfl
        refine uncounted ⟨net.useSwitchwin _, rfl, routed ?_⟩
        rw [rule]
        exact nofun
      rw [if_neg other] at here
      dsimp only
      omega

/-- What a neighbour does by itself changes nothing in what it owes to the switch. -/
theorem balanced_down (linked : net.up.Linked) (relative : net.up.absolutePsn = false)
    {ev : Credit.Event (net.down p)}
    (before : net.Balanced credited s) (allowed : net.Allowed s (.down p ev)) :
    Outcome (fun x => net.Balanced credited ⟨s.up, s.onWay, Function.update s.down p x⟩)
      Credit.Assert.NoClean ((s.down p).step (net.down p) ev) := by
  have relative' := (net.absolutePsn p).trans relative
  have start := settled_of_balanced before p
  have same : ∀ inside : p < net.ports, ∀ x : Credit.Downstream,
      (x.Settled (net.down p) (net.Watched p) fun dev d => (s.down p).owed (net.down p) dev d) →
        net.Balanced credited ⟨s.up, s.onWay, Function.update s.down p x⟩ := fun inside x after =>
    balanced_moveDown before inside after (List.Subset.refl _) fun _ _ _ => rfl
  cases ev with
  | switchNotifyDequeue x =>
    obtain ⟨inside, other⟩ := allowed
    have row : (net.down p).creditId x = x.inDev := by
      unfold Credit.Config.creditId
      rw [net.resetOnlyToR, linked]
      rfl
    have settled := Credit.switchNotifyDequeue_settled relative' start x
    rw [row] at settled
    refine outcome_mono (settled fun watched => absurd watched.1 other)
      (fun y after => ?_) fun e stop => stop (net.byteCounter _)
    refine balanced_moveDown before inside after (List.Subset.refl _) fun d g rule => ?_
    split
    · unfold Credit.dueAfter
      rw [if_neg fun both => other both.1.symm]
      rfl
    · rfl
  | sendAccSwitchACK dev acktag => exact allowed.elim
  | sendSwitchACK inDev dst size => exact allowed.elim
  | creditTimeout => exact outcome_weaken (Credit.expire_settled relative' start) fun x after => same allowed x after
  | updateBufferingCount dst bytes => exact same allowed _ (Credit.settled_credits start rfl)
  | advance t => exact same allowed _ (Credit.settled_credits start rfl)

/-! ### Runs -/

theorem balanced_step (linked : net.up.Linked) (relative : net.up.absolutePsn = false)
    {ev : net.Event} (before : net.Balanced credited s) (allowed : net.Allowed s ev)
    (call : net.step s ev = some t) :
    ∃ credited', net.Balanced credited' t := by
  cases ev with
  | up ev =>
    cases ev with
    | data q =>
      refine ⟨_, balanced_moveUp linked relative before allowed.2 ?_ before.small
        (fun _ _ _ => rfl) call⟩
      rintro p ⟨⟩
      exact allowed.1
    | switchAck acktag dst inDev => exact allowed.elim
    | advance now =>
      have fits : Event.Fits net.up s.up (.advance now) := trivial
      exact ⟨_, balanced_moveUp linked relative before fits
        (fun _ same => nomatch same) before.small (fun _ _ _ => rfl) call⟩
    | synTimeout dev =>
      have fits : Event.Fits net.up s.up (.synTimeout dev) := trivial
      exact ⟨_, balanced_moveUp linked relative before fits
        (fun _ same => nomatch same) before.small (fun _ _ _ => rfl) call⟩
  | dequeue k =>
    rw [step] at call
    split at call
    · rename_i q known
      split at call
      · rename_i hosts
        obtain ⟨x, ends, rfl⟩ := Option.map_eq_some_iff.mp call
        have after := outcome_result (balanced_dequeue linked relative before known hosts.1 hosts.2)
          (toOption_eq_some.mp ends)
        exact ⟨credited, after⟩
      · cases call
    · cases call
  | deliver k =>
    rw [step] at call
    split at call
    · rename_i q known
      split at call
      · rename_i ignored
        obtain rfl := Option.some.inj call
        refine ⟨credited, before.ledger, before.passage, fun q' member => ?_, before.small,
          fun d g rule => ?_⟩
        · exact before.way q' (List.eraseIdx_subset member)
        · have erased :=
            tally_eraseIdx (w := PacketUnit.size) (p := fun q => decide (q.dst = d)) known
          have other : decide (q.dst = d) = false := by
            refine decide_eq_false ?_
            rintro rfl
            rw [rule] at ignored
            cases ignored
          rw [other, if_neg Bool.false_ne_true, Nat.add_zero] at erased
          have balance := before.balance d g rule
          unfold onWayBytes at *
          dsimp only
          rw [erased]
          exact balance
      · cases call
    · cases call
  | down p ev =>
    obtain ⟨x, ends, rfl⟩ := Option.map_eq_some_iff.mp call
    have after := outcome_result (balanced_down linked relative before allowed)
      (toOption_eq_some.mp ends)
    exact ⟨credited, after⟩
  | switchAck p k =>
    have inside : p < net.ports := allowed
    rw [step] at call
    split at call
    · rename_i a known
      split at call
      · rename_i here
        have fits : Event.Fits net.up s.up (.switchAck a.acktag a.dst p) := trivial
        refine ⟨_, balanced_moveUp linked relative before fits (fun _ same => nomatch same)
          (fun p' dev d => ?_) (fun d g rule => ?_) call⟩
        · rw [Function.update_apply]
          split
          · rename_i same
            subst same
            exact before.small p' dev d
          · exact before.small p' dev d
        · have moved := owedBytes_update (s := s) inside s.onWay s.up
            ⟨(s.down p).state, (s.down p).acks.eraseIdx k⟩ d
          have erased := tally_eraseIdx (w := fun a => (net.down p).toDst a.acktag a.dst d)
            (p := fun a => decide (a.dev = net.inDev p)) known
          rw [decide_eq_true here, if_pos rfl, toDst_down] at erased
          have credit : Event.dstCredit net.up (.switchAck a.acktag a.dst p) d =
            net.up.toDst a.acktag a.dst d := rfl
          rw [credit]
          unfold Credit.Downstream.owed Credit.Downstream.returned at moved
          dsimp only at moved
          omega
      · cases call
    · cases call

theorem balanced_reachable (linked : net.up.Linked) (relative : net.up.absolutePsn = false)
    (reach : net.Reachable s) : ∃ credited, net.Balanced credited s := by
  induction reach with
  | initial => exact ⟨_, balanced_initial net⟩
  | step _ allowed call before =>
    obtain ⟨credited, before⟩ := before
    exact balanced_step linked relative before allowed call

/-- In any interleaving, a window is its entry of `BDPMAP` less what is in an egress cache, on the
way, in the counters of the neighbours or in a `SwitchACK`; and the asserts of the functions that
clean counters hold. -/
theorem window_conserved (linked : net.up.Linked) (relative : net.up.absolutePsn = false)
    (reach : net.Reachable s)
    (rule : net.up.dst2group d = some (.group g)) {w₀ : ℕ} (known : net.up.bdpMap d = some w₀) :
    (∃ w, s.up.window net.up d = some w ∧
      w + s.up.cachedBytes net.ports d + onWayBytes s d + net.owedBytes s d = w₀) ∧
      (∀ p ev e, net.Allowed s (.down p ev) → (s.down p).step (net.down p) ev = .error e →
        e.NoClean) ∧
      ∀ (k : ℕ) (q : PacketUnit) src dst e, s.onWay[k]? = some q →
        (s.down q.outDev).switchNotifyDequeue _ (net.arrival q src dst) = .error e → e.NoClean := by
  obtain ⟨credited, balanced⟩ := balanced_reachable linked relative reach
  refine ⟨?_, fun p ev e allowed fails => ?_, fun k q src dst e waits fails => ?_⟩
  · obtain ⟨w, has, sum⟩ := balanced.ledger.wins d g w₀ rule known
    have balance := balanced.balance d g rule
    have bytes := balanced.passage.bytes d
    exact ⟨w, has, by omega⟩
  · exact outcome_stop (balanced_down linked relative balanced allowed) fails
  · exact outcome_stop (balanced_dequeue linked relative balanced waits src dst) fails

/-! ### A run -/

/-- The run of a list of events, as long as every one is allowed and possible. -/
def run (net : Network) (s : State) : List net.Event → Option State
  | [] => some s
  | ev :: evs => if net.Allowed s ev then (net.step s ev).bind fun t => run net t evs else none

theorem reachable_run {evs : List net.Event} (start : net.Reachable s)
    (ends : net.run s evs = some t) : net.Reachable t := by
  induction evs generalizing s with
  | nil =>
    obtain rfl := Option.some.inj ends
    exact start
  | cons ev evs ih =>
    unfold run at ends
    split at ends
    · rename_i allowed
      obtain ⟨u, call, later⟩ := Option.bind_eq_some_iff.mp ends
      exact ih (.step start allowed call) later
    · cases ends

theorem exists_run (evs : List net.Event) {test : State → Prop} [∀ s, Decidable (test s)]
    (ends : ((net.run net.initial evs).any fun s => decide (test s)) = true) :
    ∃ s, net.Reachable s ∧ test s := by
  obtain ⟨s, ended, passes⟩ := Option.any_eq_true _ _ |>.mp ends
  exact ⟨s, reachable_run .initial ended, of_decide_eq_true passes⟩

end Network

/-- A switch of one device that returns every byte at once. -/
def returningConfig : Credit.Config where
  toConfig := bulkConfig
  isToR := false
  useSwitchwin := true
  deviceNum := 1
  deviceNum_pos := Nat.one_pos
  torNum := 1
  torNum_pos := Nat.one_pos
  hostNum_pos := Nat.two_pos
  byteCounter := 1
  ackThM := 0
  thAck := 0
  interval := 0

theorem bulk_windows (d : ℕ) (host : d < bulkConfig.hostNum) : ∃ w, bulkConfig.bdpMap d = some w :=
  ⟨1500, if_pos (Nat.lt_trans host (by decide))⟩

/-- Five devices, each of which leads to such a switch. -/
def bulkNetwork : Network where
  up := bulkConfig
  ports := 5
  down := fun _ => returningConfig
  inDev := fun _ => 0
  ackMode := fun _ => rfl
  hostNum := fun _ => rfl
  absolutePsn := fun _ => rfl
  resetOnlyToR := fun _ => rfl
  useSwitchwin := fun _ => rfl
  byteCounter := fun _ => Nat.one_pos
  windows := bulk_windows

/-- The first packet has been dequeued and its `SwitchACK` is on the way; a second one waits. -/
theorem window_conserved_waits : ∃ s, bulkNetwork.Reachable s ∧ s.up.pkts 0 1 ≠ [] ∧
    (s.down 1).acks ≠ [] ∧
    ∃ w, s.up.window bulkConfig 1 = some w ∧
      w + s.up.cachedBytes 5 1 + Network.onWayBytes s 1 + bulkNetwork.owedBytes s 1 = 1500 := by
  obtain ⟨s, reach, waits, sent⟩ : ∃ s, bulkNetwork.Reachable s ∧ s.up.pkts 0 1 ≠ [] ∧
      (s.down 1).acks.length = 1 :=
    Network.exists_run [.up (.data (bulkPacket 0)), .up (.data (bulkPacket 1)), .dequeue 0]
      (by decide +kernel)
  have returns : (s.down 1).acks ≠ [] := by
    intro none
    rw [none] at sent
    cases sent
  exact ⟨s, reach, waits, returns,
    (@Network.window_conserved bulkNetwork s 1 0 rfl rfl reach rfl 1500 rfl).1⟩

end Floodgate

end Pyrrha

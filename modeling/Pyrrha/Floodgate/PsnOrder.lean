import Pyrrha.Floodgate.AckOrder
import Pyrrha.Floodgate.Conservation
import Pyrrha.Floodgate.Numbering
import Pyrrha.Floodgate.Syn

/-!
A switch and its neighbours in the absolute mode, hop by hop, over links that lose, repeat and
reorder everything: a packet, a SYN or a `SwitchACK` that has been sent arrives never, once or many
times. The PSN counters of the two ends of a link stay in order.
-/

namespace Pyrrha
open Lib

namespace Floodgate

/-- A network in the absolute mode, hop by hop. `nodeId` is the `m_id` of the switch; switches come
after the hosts. -/
structure PsnNetwork extends Network where
  absolute : up.absolutePsn = true
  link : up.resetOnlyToR = false
  rows : ∀ p, (down p).Rows
  inDev_lt : ∀ p, inDev p < switchScale
  nodeId : ℕ
  nodeId_ge : up.hostNum ≤ nodeId
  hostPerRack_pos : ∀ p, 0 < (down p).hostPerRack

namespace PsnNetwork

/-- `stored` are the packets a neighbour has received from the switch and not dequeued. -/
structure State where
  up : Floodgate.State
  stored : ℕ → List PacketUnit := fun _ => []
  down : ℕ → Credit.Downstream := fun _ => {}

/-- Why a step is not taken: an assert of the switch, one of a neighbour, or there is nothing to be
moved. -/
inductive Failure where
  | up (e : Floodgate.Assert)
  | down (p : ℕ) (e : Credit.Assert)
  | nothing

variable (net : PsnNetwork)

/-- What can happen. A neighbour also receives packets and SYNs from others, and dequeues theirs. -/
inductive Event where
  | up (ev : Floodgate.Event)
  | data (k : ℕ)
  | dequeue (p k : ℕ)
  | syn (k : ℕ)
  | switchAck (p k : ℕ)
  | down (p : ℕ) (ev : Credit.Event (net.down p))
  | otherData (p dev dst psn : ℕ)
  | otherSyn (p : ℕ) (syn : Credit.Syn (net.down p))

theorem down_link (p : ℕ) : (net.down p).resetOnlyToR = false := (net.resetOnlyToR p).trans net.link

theorem down_absolute (p : ℕ) : (net.down p).absolutePsn = true :=
  (net.absolutePsn p).trans net.absolute

/-- A SYN of the switch at the neighbour `p`. -/
def synOf (p : ℕ) (tag : SynTag) : Credit.Syn (net.down p) where
  tag := tag
  inDev := net.inDev p
  inDev_lt := net.inDev_lt p
  upstream := net.inDev p
  upstream_eq _ := rfl
  nodeId := net.nodeId
  nodeId_ge := (net.hostNum p).trans_le net.nodeId_ge
  ownRack := 0
  ownRack_ne tor := absurd (tor.symm.trans (net.down_link p)) (by decide)
  hostPerRack_pos := net.hostPerRack_pos p

def moveUp (s : State) (ev : Floodgate.Event) : Except Failure State :=
  ((s.up.step net.up ev).mapError .up).map fun t => { s with up := t }

def moveDown (s : State) (p : ℕ) (stored : List PacketUnit)
    (call : Credit.Checked Credit.Downstream) : Except Failure State :=
  (call.mapError (.down p)).map fun x =>
    { s with stored := Function.update s.stored p stored, down := Function.update s.down p x }

def step (s : State) : net.Event → Except Failure State
  | .up ev => net.moveUp s ev
  | .data k =>
    match s.up.sent[k]? with
    | some q =>
      match q.psn with
      | some psn =>
        let x := s.down q.outDev
        moveDown s q.outDev (s.stored q.outDev ++ [q])
          (.ok { x with state := x.state.noteData (net.inDev q.outDev) q.dst psn })
      | none => .error .nothing
    | none => .error .nothing
  | .dequeue p k =>
    match (s.stored p)[k]? with
    | some q =>
      if h : q.outDev = p ∧ q.src < (net.down q.outDev).hostNum ∧
        q.dst < (net.down q.outDev).hostNum then
        moveDown s q.outDev ((s.stored p).eraseIdx k)
          ((s.down q.outDev).switchNotifyDequeue _ (net.arrival q h.2.1 h.2.2))
      else .error .nothing
    | none => .error .nothing
  | .syn k =>
    match s.up.synSent[k]? with
    | some syn =>
        moveDown s syn.1 (s.stored syn.1) ((s.down syn.1).receiveSYN _ (net.synOf syn.1 syn.2))
    | none => .error .nothing
  | .switchAck p k =>
    match (s.down p).acks[k]? with
    | some a =>
        if a.dev = net.inDev p then net.moveUp s (.switchAck a.acktag a.dst p) else .error .nothing
    | none => .error .nothing
  | .down p ev => moveDown s p (s.stored p) ((s.down p).step (net.down p) ev)
  | .otherData p dev dst psn =>
    moveDown s p (s.stored p) (.ok { s.down p with state := (s.down p).state.noteData dev dst psn })
  | .otherSyn p syn => moveDown s p (s.stored p) ((s.down p).receiveSYN _ syn)

/-- A packet comes to the switch without a number; what is left of a `SwitchACK` is that of a
neighbour. Of others, a neighbour dequeues what it has received. -/
def Allowed (s : State) : net.Event → Prop
  | .up (.data p) => p.psn = none
  | .up (.switchAck ..) => False
  | .up _ | .data _ | .dequeue .. | .syn _ | .switchAck .. => True
  | .down p (.switchNotifyDequeue x) => x.inDev < switchScale ∧ x.inDev ≠ net.inDev p ∧
      ∀ psn ∈ x.ingressPsn, psn ≤ (s.down p).state.rcvDataPsn x.inDev x.dip
  | .down _ (.sendAccSwitchACK ..) | .down _ (.sendSwitchACK ..) => False
  | .down .. => True
  | .otherData p dev _ _ => dev ≠ net.inDev p
  | .otherSyn p syn => syn.inDev ≠ net.inDev p

instance (s : State) (ev : net.Event) : Decidable (net.Allowed s ev) :=
  match ev with
  | .up (.data p) => inferInstanceAs (Decidable (p.psn = none))
  | .up (.switchAck ..) | .down _ (.sendAccSwitchACK ..) | .down _ (.sendSwitchACK ..) => isFalse id
  | .up (.advance _) | .up (.synTimeout _) | .data _ | .dequeue .. | .syn _ | .switchAck .. =>
      isTrue trivial
  | .down p (.switchNotifyDequeue x) =>
      inferInstanceAs (Decidable (x.inDev < switchScale ∧ x.inDev ≠ net.inDev p ∧
      ∀ psn ∈ x.ingressPsn, psn ≤ (s.down p).state.rcvDataPsn x.inDev x.dip))
  | .down _ .creditTimeout | .down _ (.updateBufferingCount ..) | .down _ (.advance _) =>
      isTrue trivial
  | .otherData p dev _ _ => inferInstanceAs (Decidable (dev ≠ net.inDev p))
  | .otherSyn p syn => inferInstanceAs (Decidable (syn.inDev ≠ net.inDev p))

def initial : State := { up := Floodgate.State.initial net.up }

inductive Reachable : State → Prop where
  | initial : Reachable net.initial
  | step {s t : State} {ev : net.Event} : Reachable s → net.Allowed s ev →
      net.step s ev = .ok t → Reachable t

/-! ### The order of the counters -/

/-- The counters of the two ends of the link to `p`. -/
structure Chain (s : State) (p d : ℕ) : Prop where
  acked : s.up.rcvAckPsn p d ≤ (s.down p).state.lstAckPsn (net.inDev p) d
  last : (s.down p).state.lstAckPsn (net.inDev p) d ≤ (s.down p).state.nxtAckPsn (net.inDev p) d
  next : (s.down p).state.nxtAckPsn (net.inDev p) d ≤ (s.down p).state.rcvDataPsn (net.inDev p) d
  received : (s.down p).state.rcvDataPsn (net.inDev p) d ≤ s.up.nxtDataPsn p d

/-- The counters of all links are in order, and whatever is on its way or stored is within them. -/
structure Chained (s : State) : Prop where
  up : s.up.Onward net.up fun _ _ => 0
  down : ∀ p, (s.down p).AckOrder (net.down p) (s.down p).state
  acked : ∀ p d, s.up.rcvAckPsn p d ≤ (s.down p).state.lstAckPsn (net.inDev p) d
  received : ∀ p d, (s.down p).state.rcvDataPsn (net.inDev p) d ≤ s.up.nxtDataPsn p d
  stored : ∀ p, ∀ q ∈ s.stored p, ∀ n, q.psn = some n →
    n ≤ (s.down p).state.rcvDataPsn (net.inDev p) q.dst

/-- No assert on the difference of two counters. -/
def Failure.Harmless (e : Failure) : Prop :=
  e ≠ .up .getInflightBytes ∧ ∀ p, e ≠ .down p .getIngressDstCreditCounter

variable {net} {s t : State} {p : ℕ} {q : PacketUnit} {x : Credit.Downstream}

theorem chained_initial (net : PsnNetwork) : net.Chained net.initial where
  up := State.onward_initial net.up
  down p := Credit.ackOrder_initial (net.down p)
  acked _ _ := Nat.le_refl 0
  received _ _ := Nat.le_refl 0
  stored _ _ member := (List.not_mem_nil member).elim

theorem harmless_up (e : Floodgate.Assert) (other : e.NoInflight) : (Failure.up e).Harmless :=
  ⟨fun same => other (Failure.up.inj same), fun _ same => by cases same⟩

theorem harmless_down (p : ℕ) (e : Credit.Assert) (other : e.NoCounter) :
    (Failure.down p e).Harmless :=
  ⟨fun same => (by cases same), fun _ same => other (Failure.down.inj same).2⟩

theorem harmless_nothing : Failure.nothing.Harmless :=
  ⟨fun same => (by cases same), fun _ same => by cases same⟩

/-- A step of the switch that acknowledges nothing beyond what the neighbours have. -/
theorem moveUp_chained (h : net.Chained s) {ev : Floodgate.Event}
    (allowed : ev.Unnumbered net.up s.up)
    (acked : ∀ t, s.up.step net.up ev = .ok t → ∀ p d, t.rcvAckPsn p d ≤
      (s.down p).state.lstAckPsn (net.inDev p) d) :
    Outcome net.Chained Failure.Harmless (net.moveUp s ev) := by
  have moved := State.step_onward net.absolute (State.onward_again h.up) allowed
  apply outcome_map
  apply outcome_mapError
  refine outcome_mono (outcome_call moved) (fun t after => ?_) harmless_up
  refine ⟨State.onward_weaken after.2 h.up.grows, h.down, acked t after.1, fun p d => ?_, h.stored⟩
  exact (h.received p d).trans (after.2.grows p d)

/-- A step of a neighbour that does not forget what it has received, nor receives what has not been
sent. -/
theorem moveDown_chained (h : net.Chained s) (p : ℕ) {stored : List PacketUnit}
    {first : Credit.State} {call : Credit.Checked Credit.Downstream}
    (called : Outcome (fun x => x.AckOrder (net.down p) first) Credit.Assert.NoCounter call)
    (lst : ∀ d, (s.down p).state.lstAckPsn (net.inDev p) d ≤ first.lstAckPsn (net.inDev p) d)
    (rcv : ∀ d, (s.down p).state.rcvDataPsn (net.inDev p) d ≤ first.rcvDataPsn (net.inDev p) d)
    (sent : ∀ d, first.rcvDataPsn (net.inDev p) d ≤ s.up.nxtDataPsn p d)
    (kept : ∀ q ∈ stored, q ∈ s.stored p ∨ ∀ n, q.psn = some n →
      n ≤ first.rcvDataPsn (net.inDev p) q.dst) :
    Outcome net.Chained Failure.Harmless (moveDown s p stored call) := by
  apply outcome_map
  apply outcome_mapError
  refine outcome_mono called (fun x after => ?_) (harmless_down p)
  constructor
  · exact h.up
  · intro i
    by_cases here : i = p
    · subst here
      dsimp only
      rw [Function.update_self]
      exact Credit.ackOrder_again after
    · dsimp only
      rw [Function.update_of_ne here]
      exact h.down i
  · intro i d
    by_cases here : i = p
    · subst here
      dsimp only
      rw [Function.update_self]
      exact (h.acked i d).trans ((lst d).trans (after.grows _ d))
    · dsimp only
      rw [Function.update_of_ne here]
      exact h.acked i d
  · intro i d
    by_cases here : i = p
    · subst here
      dsimp only
      rw [Function.update_self, after.rcv]
      exact sent d
    · dsimp only
      rw [Function.update_of_ne here]
      exact h.received i d
  · intro i q member n number
    by_cases here : i = p
    · subst here
      dsimp only at member ⊢
      rw [Function.update_self] at member ⊢
      rw [after.rcv]
      rcases kept q member with old | new
      · exact (h.stored i q old n number).trans (rcv q.dst)
      · exact new n number
    · dsimp only at member ⊢
      rw [Function.update_of_ne here] at member ⊢
      exact h.stored i q member n number

theorem moveDown_quiet (h : net.Chained s) (p : ℕ) {stored : List PacketUnit}
    {call : Credit.Checked Credit.Downstream}
    (called : Outcome (fun x => x.AckOrder (net.down p) (s.down p).state)
      Credit.Assert.NoCounter call)
    (kept : ∀ q ∈ stored, q ∈ s.stored p) :
    Outcome net.Chained Failure.Harmless (moveDown s p stored call) :=
  moveDown_chained h p called (fun _ => Nat.le_refl _) (fun _ => Nat.le_refl _) (h.received p)
    fun q member => .inl (kept q member)

theorem ackedPsn_down (net : PsnNetwork) (p : ℕ) (acktag : ℕ → ℕ) (dst d : ℕ) :
    (net.down p).ackedPsn acktag dst d = net.up.ackedPsn acktag dst d := by
  unfold Config.ackedPsn
  rw [net.ackMode]

theorem psnRow_link (net : PsnNetwork) (p d : ℕ) : net.up.psnRow p d = p := by
  rw [Config.psnRow, net.link]
  rfl

/-! ### Steps of the switch -/

theorem resumeVOQWin_records {cfg : Config} {s t : Floodgate.State} {acktag : ℕ → ℕ} {dst inDev : ℕ}
    {keep : Bool} (absolute : cfg.absolutePsn = true) (host : dst < cfg.hostNum)
    (call : s.resumeVOQWin cfg acktag dst inDev = .ok (t, keep)) (row d : ℕ) :
    t.rcvAckPsn row d = s.rcvAckPsn row d ∨
      row = cfg.psnRow inDev d ∧ d < cfg.hostNum ∧
      t.rcvAckPsn row d = cfg.ackedPsn acktag dst d := by
  have recorded := State.resumeVOQWin_rcvAck absolute call row d
  unfold Config.ackedPsn
  cases mode : cfg.ackMode with
  | switchIngressCredit =>
    rw [mode] at recorded
    dsimp only at recorded ⊢
    rw [recorded]
    split
    · rename_i here
      rcases Nat.le_total (acktag d) (s.rcvAckPsn row d) with old | news
      · exact .inl (Nat.max_eq_left old)
      · exact .inr ⟨here.1, here.2, Nat.max_eq_right news⟩
    · exact .inl rfl
  | switchDstCredit | hostPerPacketAck =>
    rw [mode] at recorded
    dsimp only at recorded ⊢
    rw [recorded]
    split
    · rename_i here
      obtain ⟨rfl, rfl, -⟩ := here
      exact .inr ⟨rfl, host, (if_pos rfl).symm⟩
    · exact .inl rfl

theorem step_rcvAck {cfg : Config} {s t : Floodgate.State} {ev : Floodgate.Event}
    (other : ∀ acktag dst inDev, ev ≠ .switchAck acktag dst inDev) (call : s.step cfg ev = .ok t) :
    t.rcvAckPsn = s.rcvAckPsn := by
  cases ev with
  | data p =>
    rcases outcome_result (State.sendToDev_outcome cfg s p) call with
      ignored | ⟨p', passed⟩ | ⟨g, voqId, G, held⟩
    · rw [ignored.eq]
      rfl
    · exact passed.acks.rcvAckPsn
    · exact held.acks.rcvAckPsn
  | switchAck acktag dst inDev => exact absurd rfl (other acktag dst inDev)
  | advance now =>
    obtain rfl := Except.ok.inj call
    rfl
  | synTimeout dev =>
    obtain rfl := Except.ok.inj call
    unfold State.synTimeout
    dsimp only
    split <;> rfl

theorem up_unnumbered {ev : Floodgate.Event} (allowed : net.Allowed s (.up ev)) :
    ev.Unnumbered net.up s.up := by
  cases ev with
  | data p => exact allowed
  | switchAck acktag dst inDev => exact allowed.elim
  | advance now => trivial
  | synTimeout dev => trivial

theorem upStep_chained (h : net.Chained s) {ev : Floodgate.Event}
    (allowed : net.Allowed s (.up ev)) :
    Outcome net.Chained Failure.Harmless (net.moveUp s ev) := by
  have other : ∀ acktag dst inDev, ev ≠ .switchAck acktag dst inDev := by
    rintro acktag dst inDev rfl
    exact allowed
  refine moveUp_chained h (up_unnumbered allowed) fun t call i d => ?_
  rw [step_rcvAck other call]
  exact h.acked i d

theorem switchAck_valid (h : net.Chained s) {a : Credit.AckInFlight} (member : a ∈ (s.down p).acks)
    (here : a.dev = net.inDev p) :
    (Floodgate.Event.switchAck a.acktag a.dst p).AckValid net.up s.up := by
  obtain ⟨host, within⟩ := (h.down p).acks a member
  rw [net.hostNum p] at host within
  rw [here] at within
  refine ⟨host, fun d known => ?_⟩
  rw [psnRow_link, ← ackedPsn_down net p]
  exact (within d known).trans
    (((h.down p).lst _ d).trans (((h.down p).nxt _ d).trans (h.received p d)))

theorem switchAck_chained (h : net.Chained s) {a : Credit.AckInFlight}
    (member : a ∈ (s.down p).acks) (here : a.dev = net.inDev p) :
    Outcome net.Chained Failure.Harmless (net.moveUp s (.switchAck a.acktag a.dst p)) := by
  have valid := switchAck_valid h member here
  have within := ((h.down p).acks a member).2
  rw [net.hostNum p, here] at within
  refine moveUp_chained h valid fun t call i d => ?_
  obtain ⟨keep, resumed⟩ := State.step_switchAck call
  rcases resumeVOQWin_records net.absolute valid.1 resumed i d with same | ⟨row, known, records⟩
  · rw [same]
    exact h.acked i d
  · rw [psnRow_link] at row
    subst row
    rw [records, ← ackedPsn_down net i]
    exact within d known

/-! ### Steps of a neighbour -/

theorem data_chained (h : net.Chained s) (member : q ∈ s.up.sent) {psn : ℕ}
    (number : q.psn = some psn) :
    Outcome net.Chained Failure.Harmless (moveDown s q.outDev (s.stored q.outDev ++ [q])
      (.ok { s.down q.outDev with
        state := (s.down q.outDev).state.noteData (net.inDev q.outDev) q.dst psn })) := by
  have sent := h.up.sent q member psn number
  rw [psnRow_link] at sent
  refine moveDown_chained h q.outDev (Credit.noteData_ordered (h.down q.outDev) _ _ psn)
    (fun d => ?_) (fun d => ?_) (fun d => ?_) fun r stored => ?_
  · rw [(Credit.noteData_acks _ _ _ _).2]
  · exact Credit.noteData_ge _ _ _ _ _ d
  · rw [Credit.noteData_rcv]
    split
    · rename_i same
      rw [same.2]
      exact Nat.max_le.mpr ⟨h.received q.outDev q.dst, sent⟩
    · exact h.received q.outDev d
  · rcases List.mem_append.mp stored with old | new
    · exact .inl old
    · right
      obtain rfl := List.mem_singleton.mp new
      intro n has
      rw [number] at has
      obtain rfl := Option.some.inj has
      rw [Credit.noteData_rcv, if_pos ⟨rfl, rfl⟩]
      exact Nat.le_max_right _ _

theorem dequeue_chained (h : net.Chained s) (member : q ∈ s.stored q.outDev)
    (src : q.src < (net.down q.outDev).hostNum)
    (dst : q.dst < (net.down q.outDev).hostNum) {stored : List PacketUnit}
    (left : ∀ r ∈ stored, r ∈ s.stored q.outDev) : Outcome net.Chained Failure.Harmless
      (moveDown s q.outDev stored
        ((s.down q.outDev).switchNotifyDequeue _ (net.arrival q src dst))) := by
  have credit : (net.down q.outDev).creditId (net.arrival q src dst) = net.inDev q.outDev := by
    rw [Credit.Config.creditId, net.down_link]
    rfl
  refine moveDown_quiet h q.outDev (Credit.switchNotifyDequeue_ordered (net.down_absolute q.outDev)
    (net.rows q.outDev) (h.down q.outDev) _ ?_ ?_) left
  · rw [credit]
    exact net.inDev_lt q.outDev
  · rw [credit]
    exact h.stored q.outDev q member

theorem syn_chained (h : net.Chained s) (p : ℕ) (syn : Credit.Syn (net.down p))
    (sent : syn.inDev = net.inDev p → ∀ d, (syn.tag d).2 ≤ s.up.nxtDataPsn p d) :
    Outcome net.Chained Failure.Harmless
      (moveDown s p (s.stored p) ((s.down p).receiveSYN _ syn)) := by
  have row : Credit.State.synRow (net.down p) syn = syn.inDev := by
    rw [Credit.synRow_link (net.down_link p), syn.upstream_eq (net.down_link p)]
  have called := Credit.receiveSYN_ordered (net.down_absolute p) (net.down_link p) (h.down p) syn
  refine moveDown_chained h p called (fun d => Nat.le_refl _) (fun d => ?_)
    (fun d => ?_) fun q member => .inl member
  · show _ ≤ (s.down p).state.raised (net.down p) syn.tag _ (s.down p).state.rcvDataPsn
      (net.inDev p) d
    unfold Credit.State.raised
    split
    · rename_i more
      obtain ⟨same, -, more⟩ := more
      rw [same]
      exact Nat.le_of_lt more
    · exact Nat.le_refl _
  · show (s.down p).state.raised (net.down p) syn.tag _ (s.down p).state.rcvDataPsn
      (net.inDev p) d ≤ _
    unfold Credit.State.raised
    split
    · rename_i more
      exact sent (row.symm.trans more.1.symm) d
    · exact h.received p d

theorem downStep_chained (h : net.Chained s) {ev : Credit.Event (net.down p)}
    (allowed : net.Allowed s (.down p ev)) : Outcome net.Chained Failure.Harmless
      (moveDown s p (s.stored p) ((s.down p).step (net.down p) ev)) := by
  have order := h.down p
  refine moveDown_quiet h p ?_ fun _ member => member
  cases ev with
  | switchNotifyDequeue x =>
    obtain ⟨row, -, received⟩ := allowed
    have credit : (net.down p).creditId x = x.inDev := by
      rw [Credit.Config.creditId, net.down_link]
      rfl
    refine Credit.switchNotifyDequeue_ordered (net.down_absolute p) (net.rows p) order x ?_ ?_
    · rw [credit]
      exact row
    · rw [credit]
      exact received
  | sendAccSwitchACK dev acktag => exact allowed.elim
  | sendSwitchACK dev dst size => exact allowed.elim
  | creditTimeout => exact Credit.expire_ordered (net.down_absolute p) order
  | updateBufferingCount dst bytes => exact Credit.ackOrder_same order ⟨rfl, rfl, rfl⟩
  | advance now => exact Credit.ackOrder_same order ⟨rfl, rfl, rfl⟩

theorem otherData_chained (h : net.Chained s) (p : ℕ) {dev : ℕ} (other : dev ≠ net.inDev p)
    (dst psn : ℕ) : Outcome net.Chained Failure.Harmless (moveDown s p (s.stored p)
      (.ok { s.down p with state := (s.down p).state.noteData dev dst psn })) := by
  refine moveDown_chained h p (Credit.noteData_ordered (h.down p) _ _ psn) (fun d => ?_)
    (fun d => ?_) (fun d => ?_) fun q member => .inl member
  · rw [(Credit.noteData_acks _ _ _ _).2]
  · exact Credit.noteData_ge _ _ _ _ _ d
  · rw [Credit.noteData_rcv, if_neg fun same => other same.1.symm]
    exact h.received p d

/-- Every step keeps the counters in order, and no assert on the difference of two of them fails in
it. -/
theorem step_chained (h : net.Chained s) {ev : net.Event} (allowed : net.Allowed s ev) :
    Outcome net.Chained Failure.Harmless (net.step s ev) := by
  cases ev with
  | up ev => exact upStep_chained h allowed
  | data k =>
    unfold step
    dsimp only
    split
    · rename_i q sent
      split
      · rename_i psn number
        exact data_chained h (List.mem_of_getElem? sent) number
      · exact harmless_nothing
    · exact harmless_nothing
  | dequeue p k =>
    unfold step
    dsimp only
    split
    · rename_i q stored
      split
      · rename_i fits
        obtain ⟨rfl, src, dst⟩ := fits
        exact dequeue_chained h (List.mem_of_getElem? stored) src dst fun r =>
          List.mem_of_mem_eraseIdx
      · exact harmless_nothing
    · exact harmless_nothing
  | syn k =>
    unfold step
    dsimp only
    split
    · rename_i syn sent
      exact syn_chained h syn.1 _ fun _ => h.up.syns syn (List.mem_of_getElem? sent)
    · exact harmless_nothing
  | switchAck p k =>
    unfold step
    dsimp only
    split
    · rename_i a sent
      split
      · rename_i here
        exact switchAck_chained h (List.mem_of_getElem? sent) here
      · exact harmless_nothing
    · exact harmless_nothing
  | down p ev => exact downStep_chained h allowed
  | otherData p dev dst psn => exact otherData_chained h p allowed dst psn
  | otherSyn p syn => exact syn_chained h p syn fun same => absurd same allowed

theorem chained_reachable (reach : net.Reachable s) : net.Chained s := by
  induction reach with
  | initial => exact chained_initial net
  | step _ allowed call before => exact outcome_result (step_chained before allowed) call

/-- However packets, SYNs and `SwitchACK`s are lost, repeated and reordered, the counters of the two
ends of every link are in order, and no assert on the difference of two of them fails. -/
theorem psn_order (reach : net.Reachable s) : (∀ p d, net.Chain s p d) ∧
    ∀ ev e, net.Allowed s ev → net.step s ev = .error e → e.Harmless := by
  have chained := chained_reachable reach
  constructor
  · exact fun p d => ⟨chained.acked p d, (chained.down p).lst _ d, (chained.down p).nxt _ d,
      chained.received p d⟩
  · exact fun ev e allowed fails => outcome_stop (step_chained chained allowed) fails

/-! ### A run -/

/-- The run of a list of events, as long as every one is allowed and possible. -/
def run (net : PsnNetwork) (s : State) : List net.Event → Option State
  | [] => some s
  | ev :: evs =>
      if net.Allowed s ev then (net.step s ev).toOption.bind fun t => run net t evs else none

theorem reachable_run {evs : List net.Event} (start : net.Reachable s)
    (ends : net.run s evs = some t) : net.Reachable t := by
  induction evs generalizing s with
  | nil =>
    obtain rfl := Option.some.inj ends
    exact start
  | cons ev evs ih =>
    unfold run at ends
    split at ends
    · rename_i allowed
      obtain ⟨u, call, later⟩ := Option.bind_eq_some_iff.mp ends
      exact ih (.step start allowed (toOption_eq_some.mp call)) later
    · cases ends

theorem exists_run (evs : List net.Event) {test : State → Prop} [∀ s, Decidable (test s)]
    (ends : ((net.run net.initial evs).any fun s => decide (test s)) = true) :
    ∃ s, net.Reachable s ∧ test s := by
  obtain ⟨s, ended, passes⟩ := Option.any_eq_true _ _ |>.mp ends
  exact ⟨s, reachable_run .initial ended, of_decide_eq_true passes⟩

end PsnNetwork

/-- A switch of two devices that acknowledges every packet at once. -/
def promptConfig : Credit.Config where
  toConfig := synConfig
  isToR := false
  useSwitchwin := true
  deviceNum := 2
  deviceNum_pos := Nat.two_pos
  torNum := 1
  torNum_pos := Nat.one_pos
  hostNum_pos := Nat.two_pos
  byteCounter := 1
  ackThM := 0
  thAck := 0
  interval := 0

theorem syn_windows (d : ℕ) (host : d < synConfig.hostNum) : ∃ w, synConfig.bdpMap d = some w :=
  ⟨5000, if_pos (Nat.lt_trans host (by decide))⟩

theorem prompt_rows : promptConfig.Rows := by
  unfold Credit.Config.Rows switchScale
  decide

/-- Every device leads to such a switch. -/
def promptNetwork : PsnNetwork where
  up := synConfig
  ports := 2
  down := fun _ => promptConfig
  inDev := fun _ => 0
  ackMode := fun _ => rfl
  hostNum := fun _ => rfl
  absolutePsn := fun _ => rfl
  resetOnlyToR := fun _ => rfl
  useSwitchwin := fun _ => rfl
  byteCounter := fun _ => Nat.one_pos
  windows := syn_windows
  absolute := rfl
  link := rfl
  rows := fun _ => prompt_rows
  inDev_lt := fun _ => Credit.switchScale_pos
  nodeId := 2
  nodeId_ge := Nat.le_refl 2
  hostPerRack_pos := fun _ => Nat.one_pos

/-- Of two packets the second is late: a SYN overtakes it, and its `SwitchACK` arrives before the
packet does. A third one has not arrived. -/
theorem psn_order_late : ∃ s, promptNetwork.Reachable s ∧ s.up.rcvAckPsn 1 1 = 2000 ∧
    s.up.nxtDataPsn 1 1 = 3000 ∧
    (s.down 1).state.lstAckPsn 0 1 = 2000 ∧ (s.down 1).acks.length = 2 ∧
    promptNetwork.Chain s 1 1 := by
  let evs : List promptNetwork.Event :=
    [.up (.data (smallPacket 0 999)), .up (.data (smallPacket 1 999)), .data 0, .dequeue 1 0,
    .switchAck 1 0, .up (.synTimeout 1), .syn 0, .switchAck 1 1, .data 1, .dequeue 1 0,
      .switchAck 1 0, .up (.data (smallPacket 2 999))]
  obtain ⟨s, reach, acked, next, last, sent⟩ : ∃ s, promptNetwork.Reachable s ∧
    s.up.rcvAckPsn 1 1 = 2000 ∧ s.up.nxtDataPsn 1 1 = 3000 ∧ (s.down 1).state.lstAckPsn 0 1 = 2000 ∧
        (s.down 1).acks.length = 2 :=
    PsnNetwork.exists_run evs (by decide +kernel)
  exact ⟨s, reach, acked, next, last, sent, (PsnNetwork.psn_order reach).1 1 1⟩

end Floodgate

end Pyrrha

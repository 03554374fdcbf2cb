import Mathlib.Data.List.Iterate
import Pyrrha.Floodgate.Answers
import Pyrrha.Floodgate.Progress
import Pyrrha.Floodgate.SynAnswer

/-!
The PSN counters of a downstream switch, hop by hop. What it has acknowledged last is not beyond
what it has to acknowledge next, and that not beyond what it has received, so the difference
`GetIngressDstCreditCounter` takes never goes below zero.
-/

namespace Pyrrha
open Lib

namespace Floodgate

namespace Credit

variable {cfg : Config} {x : Downstream} {s t first : State} {dev dst th : ℕ} {acktag : ℕ → ℕ}

/-- A `SwitchACK` that answers a SYN, on its way. -/
def SwitchAck.inFlight (ack : SwitchAck) : AckInFlight := ⟨ack.outDev, ack.acked, ack.source⟩

/-- `ReceiveSYN`, with the `SwitchACK`s on their way. -/
def Downstream.receiveSYN (cfg : Config) (x : Downstream) (syn : Syn cfg) : Checked Downstream :=
  (x.state.receiveSYN cfg syn).map fun r => ⟨r.1, x.acks ++ r.2.map SwitchAck.inFlight⟩

/-- A `SwitchACK` for a host that acknowledges no PSN beyond those of `lst`. -/
def AckInFlight.Within (cfg : Config) (lst : ℕ → ℕ → ℕ) (a : AckInFlight) : Prop :=
  a.dst < cfg.hostNum ∧ ∀ d < cfg.hostNum, cfg.ackedPsn a.acktag a.dst d ≤ lst a.dev d

/-- The counters of a switch, which have been those of `first`, are in order, and its `SwitchACK`s
within them. -/
structure Downstream.AckOrder (cfg : Config) (first : State) (x : Downstream) : Prop where
  lst : ∀ row d, x.state.lstAckPsn row d ≤ x.state.nxtAckPsn row d
  nxt : ∀ row d, x.state.nxtAckPsn row d ≤ x.state.rcvDataPsn row d
  rcv : x.state.rcvDataPsn = first.rcvDataPsn
  grows : ∀ row d, first.lstAckPsn row d ≤ x.state.lstAckPsn row d
  acks : ∀ a ∈ x.acks, a.Within cfg x.state.lstAckPsn

/-- The asserts besides that of `GetIngressDstCreditCounter`. -/
def Assert.NoCounter (e : Assert) : Prop := e ≠ .getIngressDstCreditCounter

theorem ackOrder_initial (cfg : Config) : ({} : Downstream).AckOrder cfg {} where
  lst _ _ := Nat.le_refl 0
  nxt _ _ := Nat.le_refl 0
  rcv := rfl
  grows _ _ := Nat.le_refl 0
  acks _ member := (List.not_mem_nil member).elim

theorem ackOrder_again (h : x.AckOrder cfg first) : x.AckOrder cfg x.state :=
  ⟨h.lst, h.nxt, rfl, fun _ _ => Nat.le_refl _, h.acks⟩

theorem within_mono {lst lst' : ℕ → ℕ → ℕ} {a : AckInFlight} (h : a.Within cfg lst)
    (grows : ∀ row d, lst row d ≤ lst' row d) : a.Within cfg lst' :=
  ⟨h.1, fun d host => (h.2 d host).trans (grows a.dev d)⟩

/-- Counters that are acknowledged up to `lst`, and the `SwitchACK`s that say so. -/
theorem ackOrder_acked (h : x.AckOrder cfg first) {lst : ℕ → ℕ → ℕ} (acked : x.state.Acked t lst)
    (above : ∀ row d, lst row d = x.state.lstAckPsn row d ∨ lst row d = x.state.nxtAckPsn row d)
    {sent : List AckInFlight} (within : ∀ a ∈ sent, a.Within cfg lst) :
    Downstream.AckOrder cfg first ⟨t, x.acks ++ sent⟩ := by
  have grown : ∀ row d, x.state.lstAckPsn row d ≤ t.lstAckPsn row d := by
    intro row d
    rw [acked.lst]
    rcases above row d with same | next
    · rw [same]
    · rw [next]
      exact h.lst row d
  refine ⟨fun row d => ?_, ?_, ?_, fun row d => (h.grows row d).trans (grown row d),
    fun a member => ?_⟩
  · show t.lstAckPsn row d ≤ t.nxtAckPsn row d
    rw [acked.lst, acked.nxt]
    rcases above row d with same | next
    · rw [same]
      exact h.lst row d
    · rw [next]
  · show ∀ row d, t.nxtAckPsn row d ≤ t.rcvDataPsn row d
    rw [acked.nxt, acked.rcv]
    exact h.nxt
  · exact acked.rcv.trans h.rcv
  · rcases List.mem_append.mp member with old | new
    · exact within_mono (h.acks a old) grown
    · have here := within a new
      rw [← acked.lst] at here
      exact here

theorem ackOrder_same (h : x.AckOrder cfg first) (acked : x.state.Acked t x.state.lstAckPsn) :
    Downstream.AckOrder cfg first { x with state := t } := by
  have nothing : ∀ a ∈ ([] : List AckInFlight), a.Within cfg x.state.lstAckPsn := by simp
  have none := ackOrder_acked h acked (fun _ _ => .inl rfl) nothing
  rw [List.append_nil] at none
  exact none

/-! ### The counters -/

theorem getIngressDstCreditCounter_answers (order : ∀ row d, s.lstAckPsn row d ≤ s.nxtAckPsn row d)
    (row : dev < switchScale) :
    Outcome (fun _ => True) Assert.NoCounter (s.getIngressDstCreditCounter cfg dev dst) := by
  unfold State.getIngressDstCreditCounter
  rw [if_pos row]
  split
  · split
    · rw [if_pos (order dev dst)]
      trivial
    · trivial
  · trivial

theorem checkIngressCreditCounter_answers (order : ∀ row d, s.lstAckPsn row d ≤ s.nxtAckPsn row d) :
    Outcome (fun _ => True) Assert.NoCounter (s.checkIngressCreditCounter cfg dev th) := by
  unfold State.checkIngressCreditCounter
  split
  · rename_i row
    apply outcome_map
    refine outcome_foldlM (fun i _ sum _ => ?_) trivial
    exact outcome_map (getIngressDstCreditCounter_answers order row)
  · exact (by decide : Assert.checkIngressCreditCounter ≠ .getIngressDstCreditCounter)

theorem updateIngressLastSendTime_acked (cfg : Config) (s : State) (dev dst : ℕ) :
    Outcome (fun t => s.Acked t s.lstAckPsn) Assert.NoCounter
      (s.updateIngressLastSendTime cfg dev dst) := by
  unfold State.updateIngressLastSendTime
  split
  · unfold State.resetCreditTimer
    split
    · exact ⟨rfl, rfl, rfl⟩
    · split
      · exact ⟨rfl, rfl, rfl⟩
      · split
        · exact ⟨rfl, rfl, rfl⟩
        · exact (by decide : Assert.resetCreditTimer ≠ .getIngressDstCreditCounter)
  · exact (by decide : Assert.updateIngressLastSendTime ≠ .getIngressDstCreditCounter)

theorem acked_trans {u : State} {lst : ℕ → ℕ → ℕ} (h : s.Acked t lst) (h' : t.Acked u t.lstAckPsn) :
    s.Acked u lst :=
  ⟨h'.rcv.trans h.rcv, h'.nxt.trans h.nxt, h'.lst.trans h.lst⟩

theorem sendAccSwitchACK_acked (absolute : cfg.absolutePsn = true) (s : State) (dev : ℕ)
    (acktag : ℕ → ℕ) : Outcome (fun t => cfg.ackMode = .switchIngressCredit ∧
        s.Acked t (Function.update s.lstAckPsn dev (s.ackRow cfg dev acktag)))
      Assert.NoCounter (s.sendAccSwitchACK cfg dev acktag) := by
  unfold State.sendAccSwitchACK
  split
  · rename_i mode
    have cleaned :
      Outcome (fun t => s.Acked t (Function.update s.lstAckPsn dev (s.ackRow cfg dev acktag)))
        Assert.NoCounter (s.cleanIngressCreditCounter cfg dev acktag) := by
      unfold State.cleanIngressCreditCounter
      rw [if_pos absolute]
      split
      · exact ⟨rfl, rfl, rfl⟩
      · exact (by decide : Assert.cleanIngressCreditCounter ≠ .getIngressDstCreditCounter)
    apply outcome_bind cleaned
    intro t acked
    exact outcome_weaken (updateIngressLastSendTime_acked cfg t dev 0) fun u after =>
      ⟨mode, acked_trans acked after⟩
  · exact (by decide : Assert.sendAccSwitchACK ≠ .getIngressDstCreditCounter)

theorem sendSwitchACK_acked (absolute : cfg.absolutePsn = true) (s : State) (dev dst psn : ℕ) :
    Outcome (fun t => cfg.ackMode = .switchDstCredit ∧
      s.Acked t (update₂ s.lstAckPsn dev dst psn)) Assert.NoCounter
      (s.sendSwitchACK cfg dev dst psn) := by
  unfold State.sendSwitchACK
  split
  · rename_i mode
    have cleaned : s.cleanIngressDstCreditCounter cfg dev dst psn =
        .ok { s with lstAckPsn := update₂ s.lstAckPsn dev dst psn } := if_pos absolute
    rw [cleaned]
    refine outcome_weaken (updateIngressLastSendTime_acked cfg _ dev dst) fun t after => ⟨mode, ?_⟩
    exact ⟨after.rcv, after.nxt, after.lst⟩
  · exact (by decide : Assert.sendSwitchACK ≠ .getIngressDstCreditCounter)

/-! ### What is sent -/

theorem ackOrder_acc (h : x.AckOrder cfg first) (mode : cfg.ackMode = .switchIngressCredit)
    (entries : ∀ i, 0 < acktag i → acktag i = x.state.nxtAckPsn dev i)
    (acked :
      x.state.Acked t (Function.update x.state.lstAckPsn dev (x.state.ackRow cfg dev acktag))) :
    Downstream.AckOrder cfg first ⟨t, x.acks ++ [⟨dev, acktag, 0⟩]⟩ := by
  refine ackOrder_acked h acked (fun row d => ?_) fun a member => ?_
  · rw [Function.update_apply]
    split
    · rename_i here
      subst here
      unfold State.ackRow
      split
      · rename_i set
        exact .inr (entries d set.2)
      · exact .inl rfl
    · exact .inl rfl
  · obtain rfl := List.mem_singleton.mp member
    refine ⟨cfg.hostNum_pos, fun d host => ?_⟩
    show cfg.ackedPsn acktag 0 d ≤ Function.update x.state.lstAckPsn dev
      (x.state.ackRow cfg dev acktag) dev d
    rw [Function.update_self, Config.ackedPsn, mode, State.ackRow]
    dsimp only
    split
    · exact Nat.le_refl _
    · rename_i unset
      have zero : acktag d = 0 := Nat.eq_zero_of_not_pos fun pos => unset ⟨host, pos⟩
      rw [zero]
      exact Nat.zero_le _

theorem ackOrder_dst (h : x.AckOrder cfg first) (mode : cfg.ackMode = .switchDstCredit)
    (host : dst < cfg.hostNum) (entry : acktag 0 = x.state.nxtAckPsn dev dst)
    (acked : x.state.Acked t (update₂ x.state.lstAckPsn dev dst (x.state.nxtAckPsn dev dst))) :
    Downstream.AckOrder cfg first ⟨t, x.acks ++ [⟨dev, acktag, dst⟩]⟩ := by
  refine ackOrder_acked h acked (fun row d => ?_) fun a member => ?_
  · rw [update₂_apply]
    split
    · rename_i here
      obtain ⟨rfl, rfl⟩ := here
      exact .inr rfl
    · exact .inl rfl
  · obtain rfl := List.mem_singleton.mp member
    refine ⟨host, fun d _ => ?_⟩
    show cfg.ackedPsn acktag dst d ≤ update₂ x.state.lstAckPsn dev dst
      (x.state.nxtAckPsn dev dst) dev d
    rw [Config.ackedPsn, mode]
    dsimp only
    split
    · rename_i same
      subst same
      rw [update₂_same, entry]
    · exact Nat.zero_le _

theorem sendAccSwitchACK_ordered (absolute : cfg.absolutePsn = true) (h : x.AckOrder cfg first)
    (entries : ∀ i, 0 < acktag i → acktag i = x.state.nxtAckPsn dev i) :
    Outcome (Downstream.AckOrder cfg first) Assert.NoCounter
      (x.sendAccSwitchACK cfg dev acktag) := by
  apply outcome_map
  refine outcome_weaken (sendAccSwitchACK_acked absolute x.state dev acktag) fun t sent => ?_
  exact ackOrder_acc h sent.1 entries sent.2

theorem sendSwitchACK_ordered (absolute : cfg.absolutePsn = true) (h : x.AckOrder cfg first)
    (host : dst < cfg.hostNum) : Outcome (Downstream.AckOrder cfg first) Assert.NoCounter
      (x.sendSwitchACK cfg dev dst (x.state.nxtAckPsn dev dst)) := by
  apply outcome_map
  refine outcome_weaken (sendSwitchACK_acked absolute x.state dev dst _) fun t sent => ?_
  exact ackOrder_dst h sent.1 host rfl sent.2

theorem sendIngressCredits_ordered (absolute : cfg.absolutePsn = true)
    (h : x.AckOrder cfg first) (dev : ℕ) :
    Outcome (Downstream.AckOrder cfg first) Assert.NoCounter (x.sendIngressCredits cfg dev) := by
  have tag : Outcome (fun acktag => ∀ i, 0 < acktag i →
    acktag i = x.state.nxtAckPsn dev i) Assert.NoCounter (x.state.getSwitchACKTag cfg dev) := by
    unfold State.getSwitchACKTag
    split
    · intro i
      unfold State.ackEntry
      rw [if_pos absolute]
      split
      · exact fun _ => rfl
      · exact fun pos => absurd pos (Nat.lt_irrefl 0)
    · exact (by decide : Assert.getSwitchACKTag ≠ .getIngressDstCreditCounter)
  exact outcome_bind tag fun acktag entries => sendAccSwitchACK_ordered absolute h entries

theorem silent_ordered (h : x.AckOrder cfg first) {call : Checked State}
    (same : Outcome (fun t => x.state.Acked t x.state.lstAckPsn) Assert.NoCounter call) :
    Outcome (Downstream.AckOrder cfg first) Assert.NoCounter (x.silent call) :=
  outcome_map (outcome_weaken same fun _ => ackOrder_same h)

theorem creditTimeout_ordered (absolute : cfg.absolutePsn = true) (h : x.AckOrder cfg first)
    (dev dst : ℕ) :
    Outcome (Downstream.AckOrder cfg first) Assert.NoCounter (x.creditTimeout cfg dev dst) := by
  have again := silent_ordered h (updateIngressLastSendTime_acked cfg x.state dev dst)
  have counted : ∀ y : Downstream, y.AckOrder cfg first → y.countTimeoutCredit.AckOrder cfg first :=
    fun y after => ackOrder_same after ⟨rfl, rfl, rfl⟩
  unfold Downstream.creditTimeout
  split
  · rename_i inside
    split
    · apply outcome_bind (checkIngressCreditCounter_answers h.lst)
      intro due _
      split
      · exact outcome_map (outcome_weaken (sendIngressCredits_ordered absolute h dev) counted)
      · exact again
    · apply outcome_bind (getIngressDstCreditCounter_answers h.lst inside.1)
      intro credit _
      split
      · rw [State.pippyback, if_pos absolute]
        exact outcome_map (outcome_weaken (sendSwitchACK_ordered absolute h inside.2.1) counted)
      · exact again
  · exact (by decide : Assert.creditTimeout ≠ .getIngressDstCreditCounter)

theorem sendCredits_ordered (absolute : cfg.absolutePsn = true) (h : x.AckOrder cfg first)
    (row : dev < switchScale) (host : dst < cfg.hostNum) :
    Outcome (Downstream.AckOrder cfg first) Assert.NoCounter (x.sendCredits cfg th dst dev) := by
  have counted : ∀ y : Downstream, y.AckOrder cfg first → y.countByteCredit.AckOrder cfg first :=
    fun y after => ackOrder_same after ⟨rfl, rfl, rfl⟩
  unfold Downstream.sendCredits
  split
  · apply outcome_bind (checkIngressCreditCounter_answers h.lst)
    intro due _
    split
    · exact outcome_map (outcome_weaken (sendIngressCredits_ordered absolute h dev) counted)
    · exact h
  · apply outcome_bind (getIngressDstCreditCounter_answers h.lst row)
    intro credit _
    split
    · rw [State.pippyback, if_pos absolute]
      exact outcome_map (outcome_weaken (sendSwitchACK_ordered absolute h host) counted)
    · exact h
  · exact h

theorem initLastTime_acked (cfg : Config) (s : State) (dev dst : ℕ) :
    Outcome (fun t => s.Acked t s.lstAckPsn) Assert.NoCounter (s.initLastTime cfg dev dst) := by
  unfold State.initLastTime
  split
  · exact updateIngressLastSendTime_acked cfg s dev dst
  · exact ⟨rfl, rfl, rfl⟩

theorem checkUpstream_ordered (absolute : cfg.absolutePsn = true) (h : x.AckOrder cfg first)
    (row : dev < switchScale) (host : dst < cfg.hostNum) :
    Outcome (Downstream.AckOrder cfg first) Assert.NoCounter (x.checkUpstream cfg dst dev) := by
  unfold Downstream.checkUpstream
  split
  · apply outcome_bind (silent_ordered h (initLastTime_acked cfg x.state dev 0))
    exact fun y after => sendCredits_ordered absolute after row host
  · apply outcome_bind (silent_ordered h (initLastTime_acked cfg x.state dev dst))
    exact fun y after => sendCredits_ordered absolute after row host
  · exact h

/-! ### Dequeues -/

/-- The upstreams of a switch are rows of its tables. -/
def Config.Rows (cfg : Config) : Prop := cfg.allUpstreams ≤ switchScale

theorem switchScale_pos : 0 < switchScale := by
  unfold switchScale
  decide

theorem nextUpstream_row {n : ℕ} (pos : 0 < n) (rows : n ≤ switchScale) (dev : ℕ) :
    nextUpstream n dev < switchScale :=
  (Nat.mod_lt _ pos).trans_le rows

theorem iterate_row {n : ℕ} (pos : 0 < n) (rows : n ≤ switchScale)
    (row : dev < switchScale) (k : ℕ) : (nextUpstream n)^[k] dev < switchScale := by
  cases k with
  | zero => exact row
  | succ k =>
    rw [Function.iterate_succ_apply']
    exact nextUpstream_row pos rows _

theorem upstreams_rows {n : ℕ} (pos : 0 < n) (rows : n ≤ switchScale)
    (row : dev < switchScale) {m i : ℕ}
    (member : i ∈ List.iterate (nextUpstream n) dev m) : i < switchScale := by
  obtain ⟨k, -, rfl⟩ := List.mem_iterate.mp member
  exact iterate_row pos rows row k

theorem allUpstreams_pos (cfg : Config) : 0 < cfg.allUpstreams := by
  unfold Config.allUpstreams
  split
  · exact cfg.torNum_pos
  · exact cfg.deviceNum_pos

theorem upstreamNum_row (rows : cfg.Rows) : cfg.upstreamNum ≤ switchScale := by
  unfold Config.upstreamNum
  split
  · exact rows
  · exact switchScale_pos

theorem sendLeft_ordered (absolute : cfg.absolutePsn = true) (rows : cfg.Rows)
    (h : x.AckOrder cfg first) (counter : ℕ)
    (p : Dequeued cfg) (row : cfg.creditId p < switchScale) :
    Outcome (Downstream.AckOrder cfg first) Assert.NoCounter (x.sendLeft cfg counter p) := by
  unfold Downstream.sendLeft
  split
  · refine outcome_foldlM (fun i member y before => ?_) h
    have start := iterate_row upstreamNum_pos (upstreamNum_row rows) row cfg.upstreamNum
    exact sendCredits_ordered absolute before
      (upstreams_rows (allUpstreams_pos cfg) rows start member) p.dip.isLt
  · exact h

theorem countDequeue_ordered (absolute : cfg.absolutePsn = true) (h : x.AckOrder cfg first)
    (p : Dequeued cfg)
    (received : ∀ psn, p.ingressPsn = some psn → psn ≤ x.state.rcvDataPsn (cfg.creditId p) p.dip) :
    Outcome (Downstream.AckOrder cfg first) Assert.NoCounter
      (x.silent (x.state.countDequeue cfg p)) := by
  unfold Downstream.silent State.countDequeue
  rw [if_pos absolute]
  apply outcome_map
  cases known : p.ingressPsn with
  | none => exact (by decide : Assert.removePacketTag ≠ .getIngressDstCreditCounter)
  | some psn =>
    have grown : ∀ row d, x.state.nxtAckPsn row d ≤ update₂ x.state.nxtAckPsn (cfg.creditId p) p.dip
        (max psn (x.state.nxtAckPsn (cfg.creditId p) p.dip)) row d := by
      intro row d
      rw [update₂_apply]
      split
      · rename_i here
        obtain ⟨rfl, rfl⟩ := here
        exact Nat.le_max_right _ _
      · exact Nat.le_refl _
    refine ⟨fun row d => (h.lst row d).trans (grown row d), fun row d => ?_, h.rcv, h.grows, h.acks⟩
    show update₂ x.state.nxtAckPsn (cfg.creditId p) p.dip _ row d ≤ x.state.rcvDataPsn row d
    rw [update₂_apply]
    split
    · rename_i here
      obtain ⟨rfl, rfl⟩ := here
      exact Nat.max_le.mpr ⟨received psn known, h.nxt _ _⟩
    · exact h.nxt row d

theorem creditDequeue_ordered (absolute : cfg.absolutePsn = true) (rows : cfg.Rows)
    (h : x.AckOrder cfg first) (p : Dequeued cfg) (row : cfg.creditId p < switchScale)
    (received : ∀ psn, p.ingressPsn = some psn → psn ≤ x.state.rcvDataPsn (cfg.creditId p) p.dip) :
    Outcome (Downstream.AckOrder cfg first) Assert.NoCounter (x.creditDequeue cfg p) := by
  unfold Downstream.creditDequeue
  apply outcome_bind (countDequeue_ordered absolute h p received)
  intro y counted
  refine outcome_bind (outcome_foldlM (fun i member z before => ?_) counted) fun z sent => ?_
  · exact checkUpstream_ordered absolute before
      (upstreams_rows upstreamNum_pos (upstreamNum_row rows) row member) p.dip.isLt
  · exact sendLeft_ordered absolute rows sent _ p row

theorem switchNotifyDequeue_ordered (absolute : cfg.absolutePsn = true) (rows : cfg.Rows)
    (h : x.AckOrder cfg first) (p : Dequeued cfg) (row : cfg.creditId p < switchScale)
    (received : ∀ psn, p.ingressPsn = some psn → psn ≤ x.state.rcvDataPsn (cfg.creditId p) p.dip) :
    Outcome (Downstream.AckOrder cfg first) Assert.NoCounter (x.switchNotifyDequeue cfg p) := by
  rw [switchNotifyDequeue_counts]
  split
  · exact creditDequeue_ordered absolute rows h p row received
  · exact h

theorem expire_ordered (absolute : cfg.absolutePsn = true) (h : x.AckOrder cfg first) :
    Outcome (Downstream.AckOrder cfg first) Assert.NoCounter (x.expire cfg) := by
  unfold Downstream.expire
  split
  · have before := @ackOrder_same cfg x { x.state with creditTimer := none } first h ⟨rfl, rfl, rfl⟩
    exact creditTimeout_ordered absolute before _ _
  · exact h

/-! ### Arrivals -/

theorem noteData_rcv (s : State) (dev dst psn row d : ℕ) :
    (s.noteData dev dst psn).rcvDataPsn row d =
    if row = dev ∧ d = dst then max (s.rcvDataPsn row d) psn else s.rcvDataPsn row d := by
  unfold State.noteData
  split
  · rename_i news
    show update₂ s.rcvDataPsn dev dst psn row d = _
    rw [update₂_apply]
    split
    · rename_i here
      obtain ⟨rfl, rfl⟩ := here
      exact (Nat.max_eq_right (Nat.le_of_lt news)).symm
    · rfl
  · rename_i old
    split
    · rename_i here
      obtain ⟨rfl, rfl⟩ := here
      exact (Nat.max_eq_left (Nat.not_lt.mp old)).symm
    · rfl

theorem noteData_ge (s : State) (dev dst psn row d : ℕ) :
    s.rcvDataPsn row d ≤ (s.noteData dev dst psn).rcvDataPsn row d := by
  rw [noteData_rcv]
  split
  · exact Nat.le_max_left _ _
  · exact Nat.le_refl _

theorem noteData_acks (s : State) (dev dst psn : ℕ) :
    (s.noteData dev dst psn).nxtAckPsn = s.nxtAckPsn ∧ (s.noteData dev dst psn).lstAckPsn =
      s.lstAckPsn := by
  unfold State.noteData
  split <;> exact ⟨rfl, rfl⟩

theorem noteData_ordered (h : x.AckOrder cfg first) (dev dst psn : ℕ) :
    Downstream.AckOrder cfg (x.state.noteData dev dst psn)
      { x with state := x.state.noteData dev dst psn } := by
  obtain ⟨nxt, lst⟩ := noteData_acks x.state dev dst psn
  refine ⟨?_, fun row d => ?_, rfl, fun _ _ => Nat.le_refl _, ?_⟩
  · rw [nxt, lst]
    exact h.lst
  · rw [nxt]
    exact (h.nxt row d).trans (noteData_ge x.state dev dst psn row d)
  · rw [lst]
    exact h.acks

/-! ### SYNs -/

theorem raised_ge (order : ∀ row d, s.nxtAckPsn row d ≤ s.rcvDataPsn row d) (syntag : SynTag)
    (dev row d : ℕ) : s.nxtAckPsn row d ≤ s.raised cfg syntag dev s.nxtAckPsn row d := by
  unfold State.raised
  split
  · rename_i more
    obtain ⟨rfl, -, more⟩ := more
    exact (order row d).trans (Nat.le_of_lt more)
  · exact Nat.le_refl _

theorem raise_ordered (h : x.AckOrder cfg first) (syn : Syn cfg) :
    Downstream.AckOrder cfg (x.state.afterCheck cfg syn)
      { x with state := x.state.afterCheck cfg syn } := by
  refine ⟨fun row d => ?_, fun row d => ?_, rfl, fun _ _ => Nat.le_refl _, h.acks⟩
  · exact (h.lst row d).trans (raised_ge h.nxt syn.tag _ row d)
  · show x.state.raised cfg syn.tag _ x.state.nxtAckPsn row d ≤
      x.state.raised cfg syn.tag _ x.state.rcvDataPsn row d
    unfold State.raised
    split
    · exact Nat.le_refl _
    · exact h.nxt row d

theorem replies_ordered (absolute : cfg.absolutePsn = true) (link : cfg.resetOnlyToR = false)
    (syn : Syn cfg) {dsts : List ℕ}
    (hosts : ∀ d ∈ dsts, d < cfg.hostNum) (acks : List AckInFlight) {r : State × List SwitchAck}
    (h : Downstream.AckOrder cfg first ⟨r.1, acks ++ r.2.map SwitchAck.inFlight⟩) :
    Outcome (fun r => Downstream.AckOrder cfg first ⟨r.1, acks ++ r.2.map SwitchAck.inFlight⟩)
      Assert.NoCounter (dsts.foldlM (State.replyDst cfg syn) r) := by
  refine outcome_foldlM (fun d member r before => ?_) h
  unfold State.replyDst
  have here : State.replyRow cfg syn = syn.inDev := by
    rw [State.replyRow, link]
    rfl
  rw [here]
  apply outcome_map
  refine outcome_weaken (sendSwitchACK_acked absolute r.1 syn.inDev d _) fun t sent => ?_
  rw [List.map_append, ← List.append_assoc]
  exact ackOrder_dst before sent.1 (hosts d member) rfl sent.2

theorem receiveSYN_ordered (absolute : cfg.absolutePsn = true) (link : cfg.resetOnlyToR = false)
    (h : x.AckOrder cfg first) (syn : Syn cfg) :
    Outcome (Downstream.AckOrder cfg (x.state.afterCheck cfg syn)) Assert.NoCounter
      (x.receiveSYN cfg syn) := by
  have raised := raise_ordered h syn
  have none : Downstream.AckOrder cfg (x.state.afterCheck cfg syn)
      ⟨x.state.afterCheck cfg syn, x.acks ++ [].map SwitchAck.inFlight⟩ := by
    rw [List.map_nil, List.append_nil]
    exact raised
  unfold Downstream.receiveSYN
  apply outcome_map
  show Outcome _ _ (if (x.state.dsts cfg syn).isEmpty then _ else _)
  split
  · exact none
  · split
    · have tag : Outcome (fun acktag => ∀ i, 0 < acktag i →
          acktag i = (x.state.afterCheck cfg syn).nxtAckPsn
            (State.synRow cfg syn) i) Assert.NoCounter
          ((x.state.afterCheck cfg syn).getDstsSwitchACKTag cfg (State.synRow cfg syn)
            (x.state.dsts cfg syn)) := by
        unfold State.getDstsSwitchACKTag
        split
        · intro i
          unfold State.dstsEntry
          split
          · exact fun _ => rfl
          · exact fun pos => absurd pos (Nat.lt_irrefl 0)
        · exact (by decide : Assert.getSwitchACKTag ≠ .getIngressDstCreditCounter)
      apply outcome_bind tag
      intro acktag entries
      apply outcome_map
      refine outcome_weaken (sendAccSwitchACK_acked absolute (x.state.afterCheck cfg syn) _ acktag)
        fun t sent => ?_
      exact @ackOrder_acc cfg ⟨x.state.afterCheck cfg syn, x.acks⟩ t _ _ acktag raised sent.1
        entries sent.2
    · have hosts : ∀ d ∈ x.state.dsts cfg syn, d < cfg.hostNum :=
        fun d member => (mem_asked.mp member).1
      exact replies_ordered absolute link syn hosts x.acks none
    · exact none

end Credit

end Floodgate

end Pyrrha

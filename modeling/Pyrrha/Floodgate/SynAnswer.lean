import Pyrrha.Floodgate.CreditTimer
import Pyrrha.Floodgate.SynReply

/-! When the answer to a SYN has the right PSNs and reaches its sender. -/

namespace Pyrrha
open Lib

namespace Floodgate

namespace Credit

variable {cfg : Config} {s t : State} {syn : Syn cfg} {dev dst : ℕ} {sent : List SwitchAck}

/-- What the answer to a SYN is to be: the counters of its sender are raised to the entries beyond
them, and those that are still beyond an entry's acknowledgement go back to the sender. -/
structure State.SynAnswered (cfg : Config) (s : State) (syn : Syn cfg) (t : State)
    (sent : List SwitchAck) : Prop where
  raised : ∀ d < cfg.hostNum, s.rcvDataPsn syn.upstream d < (syn.tag d).2 →
    t.rcvDataPsn syn.upstream d = (syn.tag d).2 ∧ t.nxtAckPsn syn.upstream d = (syn.tag d).2
  kept : ∀ d < cfg.hostNum, ¬s.rcvDataPsn syn.upstream d < (syn.tag d).2 →
    t.rcvDataPsn syn.upstream d = s.rcvDataPsn syn.upstream d ∧
      t.nxtAckPsn syn.upstream d = s.nxtAckPsn syn.upstream d
  answered : ∀ d < cfg.hostNum, (syn.tag d).1 < t.nxtAckPsn syn.upstream d →
    (∃ ack ∈ sent, ack.Towards cfg syn.upstream ∧ ack.entry cfg d = t.nxtAckPsn syn.upstream d) ∧
      t.lstAckPsn syn.upstream d = t.nxtAckPsn syn.upstream d
  others : ∀ x, x ≠ syn.upstream → ∀ d, t.rcvDataPsn x d = s.rcvDataPsn x d ∧
    t.nxtAckPsn x d = s.nxtAckPsn x d ∧ t.lstAckPsn x d = s.lstAckPsn x d

/-- The credit timer is off, or no last send time is older than its interval. -/
def State.Timed (cfg : Config) (s : State) : Prop := cfg.interval = 0 ∨ s.Times cfg

/-! ### The sends -/

/-- The PSN tables of `t` are those of `s`, with `lst` as the last one. -/
structure State.Acked (s t : State) (lst : ℕ → ℕ → ℕ) : Prop where
  rcv : t.rcvDataPsn = s.rcvDataPsn
  nxt : t.nxtAckPsn = s.nxtAckPsn
  lst : t.lstAckPsn = lst

theorem timed_congr (timed : s.Timed cfg) (now : t.now = s.now)
    (lastTime : t.ingressLastTime = s.ingressLastTime) :
    t.Timed cfg := timed.imp_right fun times => times_congr times now lastTime

theorem updateIngressLastSendTime_timed (timed : s.Timed cfg) (row : dev < switchScale)
    (host : dst < cfg.hostNum) (column : cfg.entry dst = dst) :
    ∃ t, s.updateIngressLastSendTime cfg dev dst = .ok t ∧ s.Acked t s.lstAckPsn ∧ t.Timed cfg := by
  unfold State.updateIngressLastSendTime
  rw [if_pos row]
  by_cases off : cfg.interval = 0
  · refine ⟨s.setLastTime dev dst, ?_, ⟨rfl, rfl, rfl⟩, .inl off⟩
    rw [State.resetCreditTimer, if_pos off]
  · have times := setLastTime_times (timed.resolve_left off) row host column
    obtain ⟨timer, call, -⟩ := resetCreditTimer_armed off times
    exact ⟨_, call, ⟨rfl, rfl, rfl⟩, .inr (times_congr times rfl rfl)⟩

theorem sendAccSwitchACK_timed {acktag : ℕ → ℕ} (absolute : cfg.absolutePsn = true)
    (mode : cfg.ackMode = .switchIngressCredit) (timed : s.Timed cfg) (row : dev < switchScale) :
    ∃ t, s.sendAccSwitchACK cfg dev acktag = .ok t ∧
      s.Acked t (Function.update s.lstAckPsn dev (s.ackRow cfg dev acktag)) ∧ t.Timed cfg := by
  have clean : s.cleanIngressCreditCounter cfg dev acktag =
      .ok { s with lstAckPsn := Function.update s.lstAckPsn dev (s.ackRow cfg dev acktag) } := by
    rw [State.cleanIngressCreditCounter, if_pos row, if_pos absolute]
  have before :
      { s with lstAckPsn := Function.update s.lstAckPsn dev (s.ackRow cfg dev acktag) }.Timed cfg :=
    timed_congr timed rfl rfl
  obtain ⟨t, call, acked, after⟩ :=
    updateIngressLastSendTime_timed before row cfg.hostNum_pos (if_pos mode)
  refine ⟨t, ?_, ⟨acked.rcv, acked.nxt, acked.lst⟩, after⟩
  rw [State.sendAccSwitchACK, if_pos mode, clean]
  exact call

theorem sendSwitchACK_timed (psn : ℕ) (absolute : cfg.absolutePsn = true)
    (mode : cfg.ackMode = .switchDstCredit)
    (timed : s.Timed cfg) (row : dev < switchScale) (host : dst < cfg.hostNum) :
    ∃ t, s.sendSwitchACK cfg dev dst psn = .ok t ∧ s.Acked t (update₂ s.lstAckPsn dev dst psn) ∧
    t.Timed cfg := by
  have clean : s.cleanIngressDstCreditCounter cfg dev dst psn =
      .ok { s with lstAckPsn := update₂ s.lstAckPsn dev dst psn } := by
    rw [State.cleanIngressDstCreditCounter, if_pos absolute]
  have before : { s with lstAckPsn := update₂ s.lstAckPsn dev dst psn }.Timed cfg :=
    timed_congr timed rfl rfl
  have column : cfg.entry dst = dst := if_neg (by simp [mode])
  obtain ⟨t, call, acked, after⟩ := updateIngressLastSendTime_timed before row host column
  refine ⟨t, ?_, ⟨acked.rcv, acked.nxt, acked.lst⟩, after⟩
  rw [State.sendSwitchACK, if_pos mode, clean]
  exact call

/-- What the loop of the DST mode acknowledges. -/
def State.repliedLst (cfg : Config) (s : State) (syn : Syn cfg) (dsts : List ℕ) (x d : ℕ) : ℕ :=
  if x = syn.inDev ∧ d ∈ dsts then s.nxtAckPsn (State.replyRow cfg syn) d else s.lstAckPsn x d

theorem replies_timed (absolute : cfg.absolutePsn = true) (mode : cfg.ackMode = .switchDstCredit)
    {dsts : List ℕ}
    (sent : List SwitchAck) (hosts : ∀ d ∈ dsts, d < cfg.hostNum) (timed : s.Timed cfg) :
    ∃ t, dsts.foldlM (State.replyDst cfg syn) (s, sent) = .ok (t, sent ++ dsts.map fun d =>
        State.dstPacket cfg syn d (s.nxtAckPsn (State.replyRow cfg syn) d)) ∧
      s.Acked t (s.repliedLst cfg syn dsts) := by
  induction dsts generalizing s sent with
  | nil =>
    refine ⟨s, ?_, rfl, rfl, ?_⟩
    · rw [List.map_nil, List.append_nil]
      rfl
    · funext x d
      exact (if_neg fun both => List.not_mem_nil both.2).symm
  | cons d rest ih =>
    obtain ⟨u, call, first, timed_u⟩ :=
      sendSwitchACK_timed (s.nxtAckPsn (State.replyRow cfg syn) d) absolute mode
      timed syn.inDev_lt (hosts d List.mem_cons_self)
    obtain ⟨t, loop, later⟩ :=
      ih (sent ++ [State.dstPacket cfg syn d (s.nxtAckPsn (State.replyRow cfg syn) d)])
      (fun x member => hosts x (List.mem_cons_of_mem d member)) timed_u
    refine ⟨t, ?_, later.rcv.trans first.rcv, later.nxt.trans first.nxt, ?_⟩
    · rw [List.foldlM_cons, State.replyDst]
      dsimp only
      rw [call]
      rw [first.nxt, List.append_assoc] at loop
      exact loop
    · rw [later.lst]
      funext x e
      unfold State.repliedLst
      rw [first.nxt, first.lst]
      by_cases here : x = syn.inDev ∧ e ∈ rest
      · rw [if_pos here, if_pos ⟨here.1, List.mem_cons_of_mem d here.2⟩]
      · rw [if_neg here, update₂_apply]
        by_cases same : x = syn.inDev ∧ e = d
        · rw [if_pos same, if_pos ⟨same.1, same.2 ▸ List.mem_cons_self⟩, same.2]
        · have other : ¬(x = syn.inDev ∧ e ∈ d :: rest) := fun both =>
            (List.mem_cons.mp both.2).elim (fun eq => same ⟨both.1, eq⟩) fun member =>
              here ⟨both.1, member⟩
          rw [if_neg same, if_neg other]

/-! ### The two modes -/

theorem mem_asked {syntag : SynTag} {d : ℕ} :
    d ∈ s.asked cfg syntag dev ↔ d < cfg.hostNum ∧ (syntag d).1 < s.nxtAckPsn dev d := by
  simp [State.asked]

/-- The state `CheckSYN` leaves. -/
def State.afterCheck (cfg : Config) (s : State) (syn : Syn cfg) : State :=
  s.raise cfg syn.tag (State.synRow cfg syn)

/-- The destinations `CheckSYN` returns. -/
def State.dsts (cfg : Config) (s : State) (syn : Syn cfg) : List ℕ :=
  (s.afterCheck cfg syn).asked cfg syn.tag (State.synRow cfg syn)

theorem receiveSYN_dst (absolute : cfg.absolutePsn = true) (mode : cfg.ackMode = .switchDstCredit)
    (timed : s.Timed cfg) :
    ∃ t, s.receiveSYN cfg syn = .ok (t, (s.dsts cfg syn).map fun d =>
        State.dstPacket cfg syn d ((s.afterCheck cfg syn).nxtAckPsn (State.replyRow cfg syn) d)) ∧
      (s.afterCheck cfg syn).Acked t
      ((s.afterCheck cfg syn).repliedLst cfg syn (s.dsts cfg syn)) := by
  have hosts : ∀ d ∈ s.dsts cfg syn, d < cfg.hostNum := fun d member => (mem_asked.mp member).1
  have before : (s.afterCheck cfg syn).Timed cfg := timed_congr timed rfl rfl
  obtain ⟨t, loop, acked⟩ :=
    @replies_timed cfg (s.afterCheck cfg syn) syn absolute mode _ [] hosts before
  refine ⟨t, ?_, acked⟩
  show (if (s.dsts cfg syn).isEmpty then _ else _) = _
  rw [mode]
  split
  · rename_i none
    rw [List.isEmpty_iff.mp none] at loop ⊢
    exact loop
  · exact loop

/-- The row of the sender after the tag of the INGRESS mode has been sent. -/
def State.sentRow (cfg : Config) (s : State) (syn : Syn cfg) (i : ℕ) : ℕ :=
  if i < cfg.hostNum ∧
    (s.lstAckPsn (State.synRow cfg syn) i < s.nxtAckPsn (State.synRow cfg syn) i ∨
      (syn.tag i).1 < s.nxtAckPsn (State.synRow cfg syn) i) then s.nxtAckPsn
        (State.synRow cfg syn) i
  else s.lstAckPsn (State.synRow cfg syn) i

theorem dstsEntry_eq (prompt : cfg.ackThM = 0) {d : ℕ} :
    s.dstsEntry cfg dev (s.asked cfg syn.tag dev) d =
      if d < cfg.hostNum ∧
      (s.lstAckPsn dev d < s.nxtAckPsn dev d ∨ (syn.tag d).1 < s.nxtAckPsn dev d) then
        s.nxtAckPsn dev d
      else 0 := by
  unfold State.dstsEntry
  by_cases host : d < cfg.hostNum
  · simp [State.notDelayed, prompt, mem_asked, host]
  · simp [host]

theorem ackRow_sentRow (prompt : cfg.ackThM = 0) :
    s.ackRow cfg (State.synRow cfg syn) (s.dstsEntry cfg (State.synRow cfg syn)
      (s.asked cfg syn.tag (State.synRow cfg syn))) = s.sentRow cfg syn := by
  funext d
  unfold State.ackRow State.sentRow
  rw [dstsEntry_eq prompt]
  by_cases due : d < cfg.hostNum ∧
    (s.lstAckPsn (State.synRow cfg syn) d < s.nxtAckPsn (State.synRow cfg syn) d ∨
      (syn.tag d).1 < s.nxtAckPsn (State.synRow cfg syn) d)
  · have pos : 0 < s.nxtAckPsn (State.synRow cfg syn) d := by omega
    rw [if_pos due, if_pos due, if_pos ⟨due.1, pos⟩]
  · rw [if_neg due, if_neg due, if_neg fun both => absurd both.2 (Nat.lt_irrefl 0)]

theorem receiveSYN_ingress (absolute : cfg.absolutePsn = true)
    (mode : cfg.ackMode = .switchIngressCredit)
    (prompt : cfg.ackThM = 0) (timed : s.Timed cfg) (row : State.synRow cfg syn < switchScale)
    (some : s.dsts cfg syn ≠ []) :
    ∃ t, s.receiveSYN cfg syn = .ok (t, [State.accPacket cfg (State.synRow cfg syn)
        ((s.afterCheck cfg syn).dstsEntry cfg (State.synRow cfg syn) (s.dsts cfg syn))]) ∧
      (s.afterCheck cfg syn).Acked t
      (Function.update (s.afterCheck cfg syn).lstAckPsn (State.synRow cfg syn)
        ((s.afterCheck cfg syn).sentRow cfg syn)) := by
  have before : (s.afterCheck cfg syn).Timed cfg := timed_congr timed rfl rfl
  have tag : (s.afterCheck cfg syn).getDstsSwitchACKTag cfg (State.synRow cfg syn)
    (s.dsts cfg syn) =
      .ok ((s.afterCheck cfg syn).dstsEntry cfg (State.synRow cfg syn) (s.dsts cfg syn)) := by
    rw [State.getDstsSwitchACKTag, if_pos ⟨row, mode, absolute⟩]
  obtain ⟨t, call, acked, -⟩ :=
    @sendAccSwitchACK_timed cfg (s.afterCheck cfg syn) (State.synRow cfg syn)
    ((s.afterCheck cfg syn).dstsEntry cfg (State.synRow cfg syn) (s.dsts cfg syn)) absolute
      mode before row
  refine ⟨t, ?_, acked.rcv, acked.nxt, ?_⟩
  · show (if (s.dsts cfg syn).isEmpty then _ else _) = _
    rw [mode, if_neg fun none => some (List.isEmpty_iff.mp none)]
    show ((s.afterCheck cfg syn).getDstsSwitchACKTag cfg (State.synRow cfg syn)
      (s.dsts cfg syn) >>= _) = _
    rw [tag]
    show Except.map _ ((s.afterCheck cfg syn).sendAccSwitchACK cfg (State.synRow cfg syn) _) = _
    rw [call]
    rfl
  · rw [acked.lst, State.dsts, ackRow_sentRow prompt]

theorem receiveSYN_quiet (none : s.dsts cfg syn = []) :
    s.receiveSYN cfg syn = .ok (s.afterCheck cfg syn, []) := by
  show (if (s.dsts cfg syn).isEmpty then _ else _) = _
  rw [if_pos (List.isEmpty_iff.mpr none)]
  rfl

/-! ### The scopes -/

theorem synRow_link (link : cfg.resetOnlyToR = false) : State.synRow cfg syn = syn.upstream := by
  rw [State.synRow, link, syn.upstream_eq link]
  rfl

/-- The ids of switches have no address, so in the scope of ToRs every SYN comes from host 0. -/
theorem synRow_tor (tor : cfg.resetOnlyToR = true) : State.synRow cfg syn = 0 := by
  have beyond : ¬syn.nodeId * cfg.hostPerRack < cfg.hostNum := by
    have := Nat.le_mul_of_pos_right syn.nodeId syn.hostPerRack_pos
    have := syn.nodeId_ge
    omega
  rw [State.synRow, if_pos tor, Syn.sip, Config.addressed, if_neg beyond, Nat.zero_div]

theorem replyRow_link (link : cfg.resetOnlyToR = false) :
    State.replyRow cfg syn = syn.upstream := by
  rw [State.replyRow, link, syn.upstream_eq link]
  rfl

theorem replyRow_tor (tor : cfg.resetOnlyToR = true) : State.replyRow cfg syn = syn.ownRack := by
  rw [State.replyRow, if_pos tor, Syn.dip, Nat.mul_div_cancel _ syn.hostPerRack_pos]

/-- In the scope of ToRs an answer of the DST mode goes to the rack it comes from. -/
theorem dstPacket_tor {d psn : ℕ} (tor : cfg.resetOnlyToR = true) :
    ¬(State.dstPacket cfg syn d psn).Towards cfg syn.upstream := by
  unfold SwitchAck.Towards State.dstPacket
  rw [if_pos tor]
  dsimp only
  rw [if_pos tor]
  rintro ⟨host, same, rack⟩
  obtain rfl := Option.some.inj same
  rw [Syn.dip, Nat.mul_div_cancel _ syn.hostPerRack_pos] at rack
  exact syn.ownRack_ne tor rack

theorem accPacket_tor {acktag : ℕ → ℕ} (tor : cfg.resetOnlyToR = true) :
    (State.accPacket cfg (State.synRow cfg syn) acktag).Towards cfg syn.upstream ↔
    syn.upstream = 0 := by
  unfold SwitchAck.Towards State.accPacket
  rw [if_pos tor, synRow_tor tor]
  dsimp only
  rw [if_pos tor, Nat.zero_mul, Config.addressed, if_pos cfg.hostNum_pos]
  constructor
  · rintro ⟨host, same, rack⟩
    obtain rfl := Option.some.inj same
    rw [← rack, Nat.zero_div]
  · intro first
    exact ⟨0, rfl, by rw [first, Nat.zero_div]⟩

theorem raised_apply {table : ℕ → ℕ → ℕ} {syntag : SynTag} {x d : ℕ} (host : d < cfg.hostNum) :
    s.raised cfg syntag dev table x d =
      if x = dev ∧ s.rcvDataPsn dev d < (syntag d).2 then (syntag d).2 else table x d := by
  unfold State.raised
  simp only [host, true_and]

theorem raised_other {table : ℕ → ℕ → ℕ} {syntag : SynTag} {x : ℕ} (other : x ≠ dev) (d : ℕ) :
    s.raised cfg syntag dev table x d = table x d := if_neg fun both => other both.1

/-- Nothing of the entries of a SYN is left to acknowledge to its sender. -/
def Syn.Unasked (cfg : Config) (syn : Syn cfg) (s : State) : Prop :=
  ∀ d < cfg.hostNum, (s.raise cfg syn.tag syn.upstream).nxtAckPsn syn.upstream d ≤ (syn.tag d).1

/-- The SYN neither raises nor asks for anything of its sender, and what is done for rack 0 instead
changes nothing. -/
structure Syn.Still (cfg : Config) (syn : Syn cfg) (s : State) : Prop where
  raises : ∀ d < cfg.hostNum, (syn.tag d).2 ≤ s.rcvDataPsn syn.upstream d ∧
    (syn.tag d).2 ≤ s.rcvDataPsn 0 d
  asks : ∀ d < cfg.hostNum, s.nxtAckPsn syn.upstream d ≤ (syn.tag d).1
  ingress : cfg.ackMode = .switchIngressCredit → s.asked cfg syn.tag 0 ≠ [] → ∀ d < cfg.hostNum,
    s.lstAckPsn 0 d < s.nxtAckPsn 0 d ∨ (syn.tag d).1 < s.nxtAckPsn 0 d →
      s.lstAckPsn 0 d = s.nxtAckPsn 0 d
  dst : cfg.ackMode = .switchDstCredit → syn.inDev ≠ syn.upstream → ∀ d < cfg.hostNum,
    (syn.tag d).1 < s.nxtAckPsn 0 d → s.lstAckPsn syn.inDev d = s.nxtAckPsn syn.ownRack d

/-- The answer is right in the link-by-link scope. In the scope of ToRs it is if the sender is rack
0 and in DST mode has nothing to get, and if there is nothing to do. -/
def Syn.Served (cfg : Config) (syn : Syn cfg) (s : State) : Prop :=
  cfg.resetOnlyToR = false ∨ syn.upstream = 0 ∧
    (cfg.ackMode = .switchIngressCredit ∨ syn.Unasked cfg s) ∨ syn.upstream ≠ 0 ∧ syn.Still cfg s

/-- The counters of the sender, when its row is the one that is taken for it. -/
theorem answered_of_aligned (aligned : State.synRow cfg syn = syn.upstream)
    (rcv : t.rcvDataPsn = (s.afterCheck cfg syn).rcvDataPsn)
    (nxt : t.nxtAckPsn = (s.afterCheck cfg syn).nxtAckPsn)
    (lst : ∀ x, x ≠ syn.upstream → ∀ d, t.lstAckPsn x d = s.lstAckPsn x d)
    (answered : ∀ d < cfg.hostNum, (syn.tag d).1 < t.nxtAckPsn syn.upstream d →
      (∃ ack ∈ sent, ack.Towards cfg syn.upstream ∧ ack.entry cfg d = t.nxtAckPsn syn.upstream d) ∧
        t.lstAckPsn syn.upstream d = t.nxtAckPsn syn.upstream d) :
        s.SynAnswered cfg syn t sent := by
  have rcv_eq : t.rcvDataPsn = s.raised cfg syn.tag syn.upstream s.rcvDataPsn := by
    rw [rcv, State.afterCheck, aligned]
    rfl
  have nxt_eq : t.nxtAckPsn = s.raised cfg syn.tag syn.upstream s.nxtAckPsn := by
    rw [nxt, State.afterCheck, aligned]
    rfl
  refine ⟨fun d host more => ?_, fun d host less => ?_, answered, fun x other d => ?_⟩
  · rw [rcv_eq, nxt_eq, raised_apply host, raised_apply host, if_pos ⟨rfl, more⟩,
      if_pos ⟨rfl, more⟩]
    exact ⟨rfl, rfl⟩
  · have unchanged : ¬(syn.upstream = syn.upstream ∧ s.rcvDataPsn syn.upstream d < (syn.tag d).2) :=
      fun both => less both.2
    rw [rcv_eq, nxt_eq, raised_apply host, raised_apply host, if_neg unchanged, if_neg unchanged]
    exact ⟨rfl, rfl⟩
  · rw [rcv_eq, nxt_eq, raised_other other, raised_other other]
    exact ⟨rfl, rfl, lst x other d⟩

theorem synRow_lt : State.synRow cfg syn < switchScale := by
  cases scope : cfg.resetOnlyToR with
  | false =>
    rw [synRow_link scope, syn.upstream_eq scope]
    exact syn.inDev_lt
  | true =>
    rw [synRow_tor scope]
    unfold switchScale
    decide

theorem ingress_answered (absolute : cfg.absolutePsn = true)
    (mode : cfg.ackMode = .switchIngressCredit)
    (prompt : cfg.ackThM = 0) (timed : s.Timed cfg) (aligned : State.synRow cfg syn =
      syn.upstream) :
    ∃ t sent, s.receiveSYN cfg syn = .ok (t, sent) ∧ s.SynAnswered cfg syn t sent := by
  by_cases none : s.dsts cfg syn = []
  · refine ⟨_, _, receiveSYN_quiet none,
      answered_of_aligned aligned rfl rfl (fun _ _ _ => rfl) fun d host asks => ?_⟩
    rw [← aligned] at asks
    have member : d ∈ s.dsts cfg syn := mem_asked.mpr ⟨host, asks⟩
    rw [none] at member
    cases member
  · obtain ⟨t, call, acked⟩ := receiveSYN_ingress absolute mode prompt timed synRow_lt none
    refine ⟨t, _, call, answered_of_aligned aligned acked.rcv acked.nxt
      (fun x other d => ?_) fun d host asks => ?_⟩
    · rw [acked.lst, Function.update_of_ne (aligned ▸ other)]
      rfl
    · rw [acked.nxt, ← aligned] at asks
      have due : d < cfg.hostNum ∧ ((s.afterCheck cfg syn).lstAckPsn (State.synRow cfg syn) d <
          (s.afterCheck cfg syn).nxtAckPsn (State.synRow cfg syn) d ∨
          (syn.tag d).1 < (s.afterCheck cfg syn).nxtAckPsn (State.synRow cfg syn) d) :=
            ⟨host, .inr asks⟩
      have towards :
        (State.accPacket cfg (State.synRow cfg syn) ((s.afterCheck cfg syn).dstsEntry cfg
          (State.synRow cfg syn) (s.dsts cfg syn))).Towards cfg syn.upstream := by
        cases scope : cfg.resetOnlyToR with
        | false =>
          rw [SwitchAck.Towards, scope]
          exact aligned
        | true => exact (accPacket_tor scope).mpr (aligned.symm.trans (synRow_tor scope))
      refine ⟨⟨_, List.mem_singleton_self _, towards, ?_⟩, ?_⟩
      · rw [SwitchAck.entry, if_pos mode, acked.nxt, ← aligned]
        exact (dstsEntry_eq prompt).trans (if_pos due)
      · rw [acked.lst, acked.nxt, ← aligned, Function.update_self]
        exact if_pos due

theorem dst_answered (absolute : cfg.absolutePsn = true) (mode : cfg.ackMode = .switchDstCredit)
    (timed : s.Timed cfg) (link : cfg.resetOnlyToR = false) :
    ∃ t sent, s.receiveSYN cfg syn = .ok (t, sent) ∧ s.SynAnswered cfg syn t sent := by
  have aligned := @synRow_link cfg syn link
  have port := syn.upstream_eq link
  obtain ⟨t, call, acked⟩ := @receiveSYN_dst cfg s syn absolute mode timed
  refine ⟨t, _, call, answered_of_aligned aligned acked.rcv acked.nxt
    (fun x other d => ?_) fun d host asks => ?_⟩
  · rw [acked.lst]
    exact if_neg fun both => other (both.1.trans port.symm)
  · rw [acked.nxt, ← aligned] at asks
    have member : d ∈ s.dsts cfg syn := mem_asked.mpr ⟨host, asks⟩
    refine ⟨⟨_, List.mem_map.mpr ⟨d, member, rfl⟩, ?_, ?_⟩, ?_⟩
    · rw [SwitchAck.Towards, link]
      exact port.symm
    · rw [SwitchAck.entry, if_neg (by simp [mode]), acked.nxt, ← @replyRow_link cfg syn link]
      exact if_pos rfl
    · rw [acked.lst, acked.nxt, ← @replyRow_link cfg syn link]
      exact if_pos ⟨(replyRow_link link).trans port, member⟩

theorem unasked_answered (aligned : State.synRow cfg syn = syn.upstream)
    (unasked : syn.Unasked cfg s) :
    ∃ t sent, s.receiveSYN cfg syn = .ok (t, sent) ∧ s.SynAnswered cfg syn t sent := by
  have after : s.afterCheck cfg syn = s.raise cfg syn.tag syn.upstream := by
    rw [State.afterCheck, aligned]
  have none : s.dsts cfg syn = [] := by
    refine List.eq_nil_iff_forall_not_mem.mpr fun d member => ?_
    obtain ⟨host, asks⟩ := mem_asked.mp member
    rw [after, aligned] at asks
    exact absurd asks (Nat.not_lt.mpr (unasked d host))
  refine ⟨_, _, receiveSYN_quiet none, answered_of_aligned aligned rfl rfl
    (fun _ _ _ => rfl) fun d host asks => ?_⟩
  rw [after] at asks
  exact absurd asks (Nat.not_lt.mpr (unasked d host))

/-- When nothing is raised in the row of rack 0, `CheckSYN` changes nothing. -/
theorem afterCheck_still (tor : cfg.resetOnlyToR = true)
    (old : ∀ d < cfg.hostNum, (syn.tag d).2 ≤ s.rcvDataPsn 0 d) : s.afterCheck cfg syn = s := by
  have same : ∀ table, s.raised cfg syn.tag 0 table = table := by
    intro table
    funext x d
    exact if_neg fun both => absurd both.2.2 (Nat.not_lt.mpr (old d both.2.1))
  rw [State.afterCheck, synRow_tor tor, State.raise, same, same]

theorem still_answered (absolute : cfg.absolutePsn = true)
    (credit : cfg.ackMode ≠ .hostPerPacketAck)
    (prompt : cfg.ackThM = 0) (timed : s.Timed cfg) (tor : cfg.resetOnlyToR = true)
    (still : syn.Still cfg s) :
    ∃ t sent, s.receiveSYN cfg syn = .ok (t, sent) ∧ s.SynAnswered cfg syn t sent := by
  have after := afterCheck_still tor fun d host => (still.raises d host).2
  have row := @synRow_tor cfg syn tor
  have right : ∀ t sent, t.rcvDataPsn = s.rcvDataPsn → t.nxtAckPsn = s.nxtAckPsn →
      (∀ x, x ≠ syn.upstream → ∀ d, t.lstAckPsn x d = s.lstAckPsn x d) →
        s.SynAnswered cfg syn t sent := by
    intro t sent rcv nxt lst
    refine ⟨fun d host more => ?_, fun d _ _ => ?_, fun d host asks => ?_, fun x other d => ?_⟩
    · exact absurd more (Nat.not_lt.mpr (still.raises d host).1)
    · rw [rcv, nxt]
      exact ⟨rfl, rfl⟩
    · rw [nxt] at asks
      exact absurd asks (Nat.not_lt.mpr (still.asks d host))
    · rw [rcv, nxt]
      exact ⟨rfl, rfl, lst x other d⟩
  by_cases none : s.dsts cfg syn = []
  · refine ⟨_, _, receiveSYN_quiet none, ?_⟩
    rw [after]
    exact right s [] rfl rfl fun _ _ _ => rfl
  · cases mode : cfg.ackMode with
    | switchIngressCredit =>
      obtain ⟨t, call, acked⟩ := receiveSYN_ingress absolute mode prompt timed synRow_lt none
      have some : s.asked cfg syn.tag 0 ≠ [] := by
        rwa [State.dsts, after, row] at none
      rw [after, row] at acked
      refine ⟨t, _, call, right t _ acked.rcv acked.nxt fun x _ d => ?_⟩
      rw [acked.lst, Function.update_apply]
      split
      · rename_i first
        subst first
        unfold State.sentRow
        rw [row]
        split
        · rename_i due
          exact (still.ingress mode some d due.1 due.2).symm
        · rfl
      · rfl
    | switchDstCredit =>
      obtain ⟨t, call, acked⟩ := @receiveSYN_dst cfg s syn absolute mode timed
      rw [after] at acked
      refine ⟨t, _, call, right t _ acked.rcv acked.nxt fun x other d => ?_⟩
      rw [acked.lst, State.repliedLst]
      split
      · rename_i here
        obtain ⟨rfl, member⟩ := here
        rw [State.dsts, after, row] at member
        obtain ⟨host, asks⟩ := mem_asked.mp member
        rw [replyRow_tor tor]
        exact (still.dst mode other d host asks).symm
      · rfl
    | hostPerPacketAck => exact absurd mode credit

theorem receiveSYN_effect (absolute : cfg.absolutePsn = true)
    (credit : cfg.ackMode ≠ .hostPerPacketAck)
    (prompt : cfg.ackThM = 0) (timed : s.Timed cfg) (tor : cfg.resetOnlyToR = true)
    (call : s.receiveSYN cfg syn = .ok (t, sent)) :
    t.rcvDataPsn = (s.afterCheck cfg syn).rcvDataPsn ∧
    t.nxtAckPsn = (s.afterCheck cfg syn).nxtAckPsn ∧
      (cfg.ackMode = .switchDstCredit ∨ syn.upstream ≠ 0 →
        ∀ ack ∈ sent, ¬ack.Towards cfg syn.upstream) := by
  by_cases none : s.dsts cfg syn = []
  · rw [receiveSYN_quiet none] at call
    obtain ⟨rfl, rfl⟩ := Prod.mk.inj (Except.ok.inj call)
    exact ⟨rfl, rfl, fun _ ack member => by cases member⟩
  · cases mode : cfg.ackMode with
    | switchIngressCredit =>
      obtain ⟨t', call', acked⟩ := receiveSYN_ingress absolute mode prompt timed synRow_lt none
      rw [call'] at call
      obtain ⟨rfl, rfl⟩ := Prod.mk.inj (Except.ok.inj call)
      refine ⟨acked.rcv, acked.nxt, fun away ack member => ?_⟩
      rw [List.mem_singleton.mp member, accPacket_tor tor]
      exact away.resolve_left nofun
    | switchDstCredit =>
      obtain ⟨t', call', acked⟩ := @receiveSYN_dst cfg s syn absolute mode timed
      rw [call'] at call
      obtain ⟨rfl, rfl⟩ := Prod.mk.inj (Except.ok.inj call)
      refine ⟨acked.rcv, acked.nxt, fun _ ack member => ?_⟩
      obtain ⟨d, -, rfl⟩ := List.mem_map.mp member
      exact dstPacket_tor tor
    | hostPerPacketAck => exact absurd mode credit

/-- A right answer to another rack than rack 0 is one to a SYN that needs none. -/
theorem still_of_answered (absolute : cfg.absolutePsn = true)
    (credit : cfg.ackMode ≠ .hostPerPacketAck)
    (prompt : cfg.ackThM = 0) (timed : s.Timed cfg) (tor : cfg.resetOnlyToR = true)
    (other : syn.upstream ≠ 0)
    (call : s.receiveSYN cfg syn = .ok (t, sent)) (right : s.SynAnswered cfg syn t sent) :
    syn.Still cfg s := by
  obtain ⟨rcv, nxt, astray⟩ := receiveSYN_effect absolute credit prompt timed tor call
  have row := @synRow_tor cfg syn tor
  have raises : ∀ d < cfg.hostNum,
      (syn.tag d).2 ≤ s.rcvDataPsn syn.upstream d ∧ (syn.tag d).2 ≤ s.rcvDataPsn 0 d := by
    intro d host
    constructor
    · by_contra more
      have raised := (right.raised d host (Nat.lt_of_not_le more)).1
      rw [rcv, State.afterCheck, row] at raised
      exact absurd ((raised_other other d).symm.trans raised) (Nat.ne_of_lt (Nat.lt_of_not_le more))
    · by_contra more
      have kept := (right.others 0 other.symm d).1
      rw [rcv, State.afterCheck, row] at kept
      have raised : s.raised cfg syn.tag 0 s.rcvDataPsn 0 d = (syn.tag d).2 :=
        (raised_apply host).trans (if_pos ⟨rfl, Nat.lt_of_not_le more⟩)
      exact absurd (kept.symm.trans raised) (Nat.ne_of_lt (Nat.lt_of_not_le more))
  have after := afterCheck_still tor fun d host => (raises d host).2
  have dsts : s.dsts cfg syn = s.asked cfg syn.tag 0 := by rw [State.dsts, after, row]
  rw [after] at nxt
  refine ⟨raises, fun d host => ?_, fun mode some d host due => ?_, fun mode port d host asks => ?_⟩
  · by_contra more
    have asks : (syn.tag d).1 < t.nxtAckPsn syn.upstream d := by
      rw [nxt]
      exact Nat.lt_of_not_le more
    obtain ⟨⟨ack, member, towards, -⟩, -⟩ := right.answered d host asks
    exact astray (.inr other) ack member towards
  · obtain ⟨t', call', acked⟩ :=
      receiveSYN_ingress absolute mode prompt timed synRow_lt (dsts ▸ some)
    rw [call'] at call
    obtain ⟨rfl, -⟩ := Prod.mk.inj (Except.ok.inj call)
    have kept := (right.others 0 other.symm d).2.2
    rw [acked.lst, row, Function.update_self, after, State.sentRow, row, if_pos ⟨host, due⟩] at kept
    exact kept.symm
  · obtain ⟨t', call', acked⟩ := @receiveSYN_dst cfg s syn absolute mode timed
    rw [call'] at call
    obtain ⟨rfl, -⟩ := Prod.mk.inj (Except.ok.inj call)
    have kept := (right.others syn.inDev port d).2.2
    have member : d ∈ s.dsts cfg syn := dsts ▸ mem_asked.mpr ⟨host, asks⟩
    rw [acked.lst, after, State.repliedLst, if_pos ⟨rfl, member⟩, replyRow_tor tor] at kept
    exact kept.symm

theorem unasked_of_answered (absolute : cfg.absolutePsn = true)
    (mode : cfg.ackMode = .switchDstCredit)
    (prompt : cfg.ackThM = 0) (timed : s.Timed cfg) (tor : cfg.resetOnlyToR = true)
    (first : syn.upstream = 0)
    (call : s.receiveSYN cfg syn = .ok (t, sent)) (right : s.SynAnswered cfg syn t sent) :
    syn.Unasked cfg s := by
  obtain ⟨-, nxt, astray⟩ := receiveSYN_effect absolute (by simp [mode]) prompt timed tor call
  intro d host
  by_contra more
  have asks : (syn.tag d).1 < t.nxtAckPsn syn.upstream d := by
    rw [nxt, State.afterCheck, synRow_tor tor, ← first]
    exact Nat.lt_of_not_le more
  obtain ⟨⟨ack, member, towards, -⟩, -⟩ := right.answered d host asks
  exact astray (.inl mode) ack member towards

/-- Without delayed `SwitchACK`s the answer to a SYN is right in the link-by-link scope; in the
scope of ToRs, only to rack 0 in INGRESS mode and when nothing needs to be done. -/
theorem syn_answered_iff (absolute : cfg.absolutePsn = true)
    (credit : cfg.ackMode ≠ .hostPerPacketAck) (prompt : cfg.ackThM = 0) (timed : s.Timed cfg) :
    (∃ t sent, s.receiveSYN cfg syn = .ok (t, sent) ∧ s.SynAnswered cfg syn t sent) ↔
    syn.Served cfg s := by
  constructor
  · rintro ⟨t, sent, call, right⟩
    cases scope : cfg.resetOnlyToR with
    | false => exact .inl scope
    | true =>
      right
      by_cases first : syn.upstream = 0
      · refine .inl ⟨first, ?_⟩
        cases mode : cfg.ackMode with
        | switchIngressCredit => exact .inl rfl
        | switchDstCredit =>
            exact .inr (unasked_of_answered absolute mode prompt timed scope first call right)
        | hostPerPacketAck => exact absurd mode credit
      · exact .inr ⟨first, still_of_answered absolute credit prompt timed scope first call right⟩
  · intro served
    cases scope : cfg.resetOnlyToR with
    | false =>
      cases mode : cfg.ackMode with
      | switchIngressCredit => exact ingress_answered absolute mode prompt timed (synRow_link scope)
      | switchDstCredit => exact dst_answered absolute mode timed scope
      | hostPerPacketAck => exact absurd mode credit
    | true =>
      rcases served with link | ⟨first, mode | unasked⟩ | ⟨-, still⟩
      · rw [scope] at link
        cases link
      · exact ingress_answered absolute mode prompt timed ((synRow_tor scope).trans first.symm)
      · exact unasked_answered ((synRow_tor scope).trans first.symm) unasked
      · exact still_answered absolute credit prompt timed scope still

/-! ### Runs

A switch is timed in every run that starts after time 0 and in which it also answers SYNs. -/

/-- `m_rcv_data_psn` when a data packet comes from `dev`. -/
def State.noteData (s : State) (dev dst psn : ℕ) : State :=
  if s.rcvDataPsn dev dst < psn then { s with rcvDataPsn := update₂ s.rcvDataPsn dev dst psn }
    else s

inductive State.SynReachable (cfg : Config) : State → Prop where
  | initial : SynReachable cfg {}
  | step {s t : State} {ev : Event cfg} : SynReachable cfg s → ev.InTime s → s.step cfg ev = .ok t →
      SynReachable cfg t
  | data {s : State} (dev dst psn : ℕ) : SynReachable cfg s →
      SynReachable cfg (s.noteData dev dst psn)
  | syn {s t : State} {syn : Syn cfg} {sent : List SwitchAck} : SynReachable cfg s → 0 < s.now →
      s.receiveSYN cfg syn = .ok (t, sent) → SynReachable cfg t

theorem receiveSYN_armed (on : cfg.interval ≠ 0) (times : s.Times cfg) (armed : s.Armed cfg)
    (start : 0 < s.now) :
    Outcome (fun r => r.1.Times cfg ∧ r.1.Armed cfg) Assert.Other (s.receiveSYN cfg syn) := by
  have before : (s.afterCheck cfg syn).Times cfg ∧ (s.afterCheck cfg syn).Armed cfg :=
    ⟨times_congr times rfl rfl, armed_congr armed rfl rfl⟩
  show Outcome _ _ (if (s.dsts cfg syn).isEmpty then _ else _)
  split
  · exact before
  · split
    · have tag : Outcome (fun _ => True) Assert.Other
          ((s.afterCheck cfg syn).getDstsSwitchACKTag cfg (State.synRow cfg syn)
            (s.dsts cfg syn)) := by
        unfold State.getDstsSwitchACKTag
        split
        · trivial
        · exact nofun
      refine outcome_bind tag fun acktag _ =>
        outcome_map (outcome_weaken (sendAccSwitchACK_keeps on before.1 start) ?_)
      exact fun t sent => ⟨sent.1.times, sent.1.armed⟩
    · refine outcome_weaken (P := fun r => (r.1.Times cfg ∧ r.1.Armed cfg) ∧
        0 < r.1.now) ?_ fun r kept => kept.1
      refine outcome_foldlM (fun d member r kept => ?_) ⟨before, start⟩
      have host : d < cfg.hostNum := (mem_asked.mp member).1
      refine outcome_map (outcome_weaken (sendSwitchACK_keeps on kept.1.1 kept.2 host) ?_)
      exact fun t sent => ⟨⟨sent.1.times, sent.1.armed⟩, sent.1.now ▸ kept.2⟩
    · exact before

theorem synReachable_timed (credit : cfg.ackMode ≠ .hostPerPacketAck) (reach : s.SynReachable cfg) :
    s.Timed cfg := by
  by_cases off : cfg.interval = 0
  · exact .inl off
  · right
    suffices s.Times cfg ∧ s.Armed cfg from this.1
    induction reach with
    | initial => exact ⟨initial_good.times, initial_good.armed⟩
    | step _ inTime call ih =>
      have moved := outcome_result (step_moves off credit ih.1 ih.2 inTime) call
      exact ⟨moved.times, moved.armed⟩
    | data dev dst psn _ ih =>
      unfold State.noteData
      split
      · exact ⟨times_congr ih.1 rfl rfl, armed_congr ih.2 rfl rfl⟩
      · exact ih
    | @syn u v _ sent _ start call ih =>
      have kept := outcome_result (receiveSYN_armed off ih.1 ih.2 start) call
      exact kept

/-! ### SYNs of two scopes -/

theorem noPortWin (tor : Bool) :
    false = true → tor = false ∧ AckMode.switchIngressCredit ≠ .hostPerPacketAck :=
  fun on => absurd on Bool.false_ne_true

/-- Two hosts in racks of one, the INGRESS mode without a credit timer. -/
def synSmall (tor : Bool) : Config where
  toConfig :=
    { smallConfig .switchIngressCredit true (ingressCredit_psn true) 5000 with
      resetOnlyToR := tor
      portWin_mode := noPortWin tor }
  isToR := true
  useSwitchwin := true
  deviceNum := 2
  deviceNum_pos := Nat.two_pos
  torNum := 2
  torNum_pos := Nat.two_pos
  hostNum_pos := Nat.two_pos
  byteCounter := 1
  ackThM := 0
  thAck := 0
  interval := 0

theorem one_lt_switchScale : 1 < switchScale := by
  unfold switchScale
  decide

theorem three_switch : 2 ≤ 3 := by decide

/-- A SYN of the second switch, whose upstream row is 1, for host 0: 1000 bytes have been sent, none
acknowledged. -/
def smallSyn (tor : Bool) : Syn (synSmall tor) where
  tag d := if d = 0 then (0, 1000) else (0, 0)
  inDev := 1
  inDev_lt := one_lt_switchScale
  upstream := 1
  upstream_eq _ := rfl
  nodeId := 3
  nodeId_ge := three_switch
  ownRack := 0
  ownRack_ne _ := Nat.zero_ne_one
  hostPerRack_pos := Nat.one_pos

theorem syn_answered_link : ∃ t sent, State.receiveSYN (synSmall false) {} (smallSyn false) =
    .ok (t, sent) ∧
    State.SynAnswered (synSmall false) {} (smallSyn false) t sent :=
  (syn_answered_iff rfl (by decide) rfl (.inl rfl)).mpr (.inl rfl)

/-- Between ToRs the PSN is taken for one of rack 0. -/
theorem syn_misplaced : ¬∃ t sent, State.receiveSYN (synSmall true) {} (smallSyn true) =
    .ok (t, sent) ∧
    State.SynAnswered (synSmall true) {} (smallSyn true) t sent := by
  rintro ⟨t, sent, call, right⟩
  have kept : ((State.receiveSYN (synSmall true) {} (smallSyn true)).toOption.any fun r =>
      decide (r.1.rcvDataPsn 1 0 = 0 ∧ r.1.rcvDataPsn 0 0 = 1000)) = true := by decide +kernel
  rw [call] at kept
  have raised := (right.raised 0 Nat.two_pos (by decide)).1
  have other : t.rcvDataPsn 1 0 = 0 := (of_decide_eq_true kept).1
  rw [show (smallSyn true).upstream = 1 from rfl, other] at raised
  cases raised

end Credit

end Floodgate

end Pyrrha
